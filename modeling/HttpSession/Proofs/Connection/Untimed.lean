import HttpSession.Proofs.Connection.Deadlines
import HttpSession.Proofs.Connection.Fault
import HttpSession.Proofs.Session.Untimed
import HttpSession.Proofs.Writer.Crash

namespace HttpSession

open Happening (deeds)

namespace Limit

theorem check_ne_missing (limit : Limit) (timer : Timer) :
    limit.check timer "negotiation_timeout" ≠ .error Timer.missing := by
  unfold check
  split
  · simp
  · simp
  · split
    · exact fun h => absurd (Except.error.inj h) (by decide)
    · simp

theorem none_of_absent {limit : Limit} {name : String} {span : Option Span}
    (h : limit.check .absent name = .ok span) : span = none := by
  cases limit with
  | default span => simpa [check, Timer.isAbsent, eq_comm] using h
  | chosen limit =>
      cases limit with
      | none => simpa [check, eq_comm] using h
      | some span => simp [check, Timer.isAbsent] at h

end Limit

theorem Builder.session_ne_missing (builder : Builder) (opened : Clock) (channel : Channel)
    (speaksHttp1 : Bool) : builder.session opened channel speaksHttp1 ≠ .error Timer.missing := by
  intro h
  unfold session at h
  cases hspan : builder.negotiationTimeout.check builder.timer "negotiation_timeout" with
  | error text =>
      obtain rfl : text = Timer.missing := by simpa [hspan, bind, Except.bind] using h
      exact builder.negotiationTimeout.check_ne_missing builder.timer hspan
  | ok span =>
      cases span with
      | none => simp [hspan, Session.new, bind, Except.bind, pure, Except.pure] at h
      | some span =>
          have present : builder.timer ≠ .absent := fun absent =>
            absurd (Limit.none_of_absent (absent ▸ hspan)) (by simp)
          simp [hspan, Session.new, Timer.sleep, Timer.sleepUntil_ok present, bind, Except.bind, pure,
            Except.pure, Functor.map, Except.map] at h

namespace Attempt

theorem Polls.inputs_of_crashed {a : Attempt} {clock : Clock} {gone : Nat → Bool} {log : List Entry}
    {r : Attempt × Outcome} {text : String} (h : Polls a clock gone log r) (hr : r.2 = .crashed text)
    (kept : ∀ inputs, ((a.connection.session.after inputs).keepTime clock).value.2 = none) :
    ∃ before, Entry.inputs log = before ++ [.write clock gone]
      ∧ ((a.connection.session.after before).write clock gone).value.2 = some text := by
  cases h with
  | idle closed => simp at hr
  | ended running takes => simp [finish] at hr
  | @onward log mid intake chores crash outcome running takes goes chore flag =>
      have htaken := takes.hears.session
      cases flag with
      | pending => simp at hr
      | crashed found =>
          obtain rfl : found = text := Outcome.crashed.inj hr
          cases chore with
          | timed _ broken =>
              rw [htaken, kept] at broken
              simp at broken
          | written _ kept broken =>
              refine ⟨Entry.inputs log ++ [.keepTime clock], by simp [(listen_works mid _).heard], ?_⟩
              rwa [Session.after_append, ← htaken]

end Attempt

namespace Service

/-- Nothing that a connection does asks for a timer that it does not have: it breaks in no poll but where
the body of a request does. Without a timer nobody waits until some time, no sleep is set, and nobody is
told by the connection that something took too long. -/
theorem timer_never_missing {builder : Builder} {opened : Clock} {channel : Channel} {speaksHttp1 : Bool}
    {session : Session} (hb : builder.session opened channel speaksHttp1 = .ok session) (id k : Nat)
    (closesAtOnce : Bool) (promise : Promise) (occasions : List Occasion) :
    let r := (start id k session closesAtOnce promise).run occasions
    (∀ opened channel speaksHttp1, builder.session opened channel speaksHttp1 ≠ .error Timer.missing)
      ∧ (∀ inputs clock, let s := r.value.session.after inputs
        (s.keepTime clock).value.2 = none
          ∧ ∀ w u text, s.writer? = some w → w.sleepOf clock u ≠ some (.error text))
      ∧ (∀ clock gone text, (r.value.polled clock gone).value.2 = .crashed text →
          ∃ before w, (r.value.meet (.poll clock gone)).inputs = before ++ [.write clock gone]
            ∧ (r.value.session.after before).writer? = some w ∧ .crash text ∈ w.frames)
      ∧ (builder.timer = .absent →
          (∀ inputs, let s := r.value.session.after inputs
            s.sleeps = [] ∧ ∀ t, s.tracker? = some t → ∀ p ∈ t.pending, p.deadline = none)
          ∧ (∀ o sink fault, .answer sink (.failed fault) ∈ (r.value.meet o).actions →
            fault.kind ≠ .responseTimeout ∧ fault.kind ≠ .writeTimeout)
          ∧ (∀ o, .refuse Fault.negotiationTimeout ∈ (r.value.meet o).actions →
            .negotiationFailed Fault.negotiationTimeout ∈ (r.value.meet o).inputs)
          ∧ ∀ clock gone fault, (r.value.polled clock gone).value.2 = .ready (some fault) →
            fault.kind = .protocolViolation ∨ fault.kind = .io) := by
  intro r
  have hnew := Builder.session_isNew hb
  have hsession : r.value.session = session.after _ := session_of_run id k closesAtOnce promise occasions
  have hkept (inputs : List Input) (clock : Clock) :
      ((r.value.session.after inputs).keepTime clock).value.2 = none := by
    rw [hsession, ← Session.after_append]
    exact hnew.unbroken _ clock
  refine ⟨builder.session_ne_missing, fun inputs clock => ⟨hkept inputs clock, fun w u text _ => ?_⟩,
    fun clock gone text h => ?_, fun absent => ?_⟩
  · exact w.sleepOf_ne_error clock u text
  · obtain ⟨before, hheard, hwritten⟩ :=
      (r.value.polled_polls clock gone).inputs_of_crashed h fun inputs => hkept inputs clock
    obtain ⟨w, hw, hframe⟩ := Session.broken_of_write hwritten
    exact ⟨before, w, by rwa [meet_poll], hw, hframe⟩
  · have huntimed : r.value.session.IsUntimed := by
      rw [hsession]
      exact (hnew.untimed ((Builder.session_settings hb).1.trans absent)).after _
    refine ⟨fun inputs => ?_, fun o sink fault h => ?_, fun o h => ?_, fun clock gone fault h => ?_⟩
    · exact ⟨(huntimed.after inputs).sleeps, fun t => (huntimed.after inputs).deadlines⟩
    · have hnone := (overdue_met r.value o).trans (huntimed.overdue_history _)
      rw [← not_or]
      intro hkind
      have hmem := mem_overdue h (by simpa [Fault.isOverdue] using hkind)
      simp [hnone] at hmem
    · have hkinds := (meet_hears r.value o).filter (p := Action.isVerdict)
        fun a ha => by cases a <;> simp_all [Action.isVerdict, Action.isNotice]
      have hmem := hkinds ▸ List.mem_filter.2 ⟨h, rfl⟩
      exact huntimed.told_of_refused (List.mem_filter.1 hmem).1
    · exact ends_outside session id k closesAtOnce promise occasions clock gone h

def careless : List Occasion :=
  agreed ++ [.ask { Options.default with responseTimeout := some 5, writeTimeout := some 5 }
      { Request.bare with body := ⟨0, [.pending, .crash "careless"], false, false⟩ },
    .poll (.steady 0) fun _ => false]

theorem timer_never_missing_careless :
    let r := (start 0 0 (.blank maxDispatches) false .new).run careless
    let broken := r.value.polled (.steady 10) fun _ => false
    r.value.session.sleeps = [] ∧ broken.value.2 = .crashed "careless"
      ∧ (∃ before w, (r.value.session.after before).writer? = some w ∧ .crash "careless" ∈ w.frames)
      ∧ r.value.session.tracker?.map (fun t => t.pending.map (·.deadline)) = some [none] := by
  intro r broken
  have hb : Builder.new.session (.steady 0) (.new (.v4 #v[127, 0, 0, 1] 80) true true) true
      = .ok (.blank maxDispatches) := rfl
  obtain ⟨-, -, hbroken, habsent⟩ := timer_never_missing hb 0 0 false .new careless
  obtain ⟨huntimed, -⟩ := habsent rfl
  have hcrash : broken.value.2 = .crashed "careless" := by decide +kernel
  obtain ⟨before, w, -, hw, hframe⟩ := hbroken (.steady 10) (fun _ => false) "careless" hcrash
  refine ⟨(huntimed []).1, hcrash, ⟨before, w, hw, hframe⟩, ?_⟩
  have hone : r.value.session.tracker?.map (fun t => t.pending.length) = some 1 := by decide +kernel
  obtain ⟨t, ht, hlength⟩ := Option.map_eq_some_iff.1 hone
  obtain ⟨p, hp⟩ := List.length_eq_one_iff.1 hlength
  have hdeadline := (huntimed []).2 t ht p (by simp [hp])
  simp [ht, hp, hdeadline]

end Service

end HttpSession
