import HttpSession.Proofs.Session.Deadlines
import HttpSession.Proofs.Session.Negotiation

namespace HttpSession

open Happening (ofActions deeds)

def Input.clock? : Input → Option Clock
  | .dispatch clock _ _ _ | .keepTime clock | .write clock _ => some clock
  | _ => none

structure Input.IsSteady (i : Input) : Prop where
  unforced : i ≠ .fire
  timed : ∀ clock, i.clock? = some clock → ∃ now, clock = Clock.steady now

namespace Session

variable {s : Session} {c d : Traffic} {i : Input} {inputs : List Input} {now : Instant}

theorem traffic_of_tracker {t : Tracker} (h : s.tracker? = some t) :
    ∃ c, s.traffic? = some c ∧ c.tracker = t := by
  unfold tracker? at h
  split at h
  · exact ⟨_, traffic?_of_phase ‹_›, Option.some.inj h⟩
  · simp at h

theorem traffic_of_writer {w : Writer} (h : s.writer? = some w) :
    ∃ c, s.traffic? = some c ∧ c.writer = w := by
  unfold writer? at h
  split at h
  · exact ⟨_, traffic?_of_phase ‹_›, Option.some.inj h⟩
  · simp at h

structure IsSteady (s : Session) : Prop where
  timer : s.timer = .present
  alarm : ∀ n, s.alarm = some n → n.fired = false

structure Rests (s r : Session) : Prop where
  timer : r.timer = s.timer
  negotiation : r.negotiation = none ∨ r.negotiation = s.negotiation
  alarm : ∀ n, r.alarm = some n → s.alarm = some n ∨ n.fired = false

namespace Rests

theorem refl (s : Session) : s.Rests s := ⟨rfl, .inr rfl, fun _ => .inl⟩

theorem steady {r : Session} (h : s.Rests r) (hs : s.IsSteady) : r.IsSteady :=
  ⟨h.timer.trans hs.timer, fun n hn => (h.alarm n hn).elim (hs.alarm n) id⟩

end Rests

theorem mapWriter_rests (s : Session) (f : Writer → Writer) : s.Rests (s.mapWriter f) := by
  unfold mapWriter
  split <;> exact ⟨rfl, .inr rfl, fun _ => .inl⟩

theorem keepNegotiation_negotiation (s : Session) (clock : Clock) :
    (s.keepNegotiation clock).value.negotiation = none
      ∨ (s.keepNegotiation clock).value.negotiation = s.negotiation := by
  unfold keepNegotiation
  split
  · exact .inl rfl
  · exact .inr rfl

theorem keepTime_rests (hs : s.IsSteady) (now : Instant) :
    s.Rests (s.keepTime (Clock.steady now)).value.1 := by
  have hsame := keepNegotiation_value s (Clock.steady now)
  have hnegotiation := s.keepNegotiation_negotiation (Clock.steady now)
  cases h : s.traffic? with
  | none =>
      rw [keepTime_of_none h]
      exact ⟨by rw [hsame], hnegotiation, fun n hn => .inl (by rw [hsame] at hn; exact hn)⟩
  | some c =>
      obtain ⟨hlater, -, -⟩ := TimerLoop.run_steady (v := s.timerLoop c.tracker) hs.alarm now
      rw [keepTime_of_established (traffic?_eq_some h).1, hs.timer]
      exact ⟨by rw [hsame], hnegotiation, fun n hn => .inr (hlater n hn)⟩

theorem respond_rests (hs : s.IsSteady) (hi : i.IsSteady) : s.Rests (s.respond i).value := by
  cases i with
  | fire => exact absurd rfl hi.unforced
  | negotiated promise reachable p =>
      by_cases hn : s.phase = .negotiating
      · obtain ⟨fault, he⟩ | ⟨encoder, -, hv, -⟩ := onNegotiated_cases hn promise reachable p
        · rw [respond, he, onNegotiationFailed_value]
          exact ⟨rfl, .inl rfl, by simp⟩
        · rw [respond, hv]
          exact ⟨rfl, .inl rfl, fun _ => .inl⟩
      · rw [respond, onNegotiated_ignored hn]
        exact .refl s
  | negotiationFailed fault =>
      rw [respond, onNegotiationFailed_value]
      exact ⟨rfl, .inl rfl, by simp⟩
  | dropped reason =>
      rw [respond, abandon_value]
      exact ⟨rfl, .inl rfl, by simp⟩
  | closed promise =>
      cases hc : s.transportClosed with
      | true =>
          rw [respond, onTransportClosed_again hc]
          exact .refl s
      | false =>
          rw [respond, onTransportClosed_value hc]
          exact ⟨rfl, .inl rfl, by simp⟩
  | dispatch clock options request sink =>
      have hsame := deadlineOf_snd s clock options
      simp only [respond, Traced.value_bind, Traced.value_pure, Session.dispatch]
      split
      · split
        · generalize s.deadlineOf clock options = due at hsame ⊢
          rw [hsame]
          split <;> exact ⟨rfl, .inr rfl, fun _ => .inl⟩
        · exact .refl s
      · exact .refl s
  | keepTime clock =>
      obtain ⟨now, rfl⟩ := hi.timed clock rfl
      exact keepTime_rests hs now
  | response stream part =>
      simp only [respond, onResponse]
      split <;> exact ⟨rfl, .inr rfl, fun _ => .inl⟩
  | message m =>
      simp only [respond, onMessage]
      split <;> exact .refl s
  | write clock gone =>
      simp only [respond, Session.write]
      split <;> exact ⟨rfl, .inr rfl, fun _ => .inl⟩
  | wire f =>
      obtain ⟨ht, hn, ha⟩ := mapWriter_rests
        { s with channel := { s.channel with wire := f s.channel.wire } } _
      exact ⟨ht, hn, ha⟩
  | sink f =>
      obtain ⟨ht, hn, ha⟩ := mapWriter_rests
        { s with channel := { s.channel with frames := s.channel.frames.map f } } _
      exact ⟨ht, hn, ha⟩
  | feed source frames ended => exact mapWriter_rests s _
  | _ => exact ⟨rfl, .inr rfl, fun _ => .inl⟩

theorem keepTime_steady (hs : s.IsSteady) (ht : s.traffic? = some c) (unarmed : s.negotiation = none)
    (now : Instant) :
    let kept := s.respond (.keepTime (Clock.steady now))
    kept.value.traffic? = some (c.track (c.tracker.expire now)).value
      ∧ kept.actions = (c.tracker.expire now).actions := by
  obtain ⟨hphase, hd, hk⟩ := traffic?_eq_some ht
  obtain ⟨-, htracker, hactions⟩ := TimerLoop.run_steady (v := s.timerLoop c.tracker) hs.alarm now
  simp only [respond, keepTime_of_established hphase, keepNegotiation_of_none unarmed, hs.timer]
  constructor
  · simp [traffic?, Traffic.track, hd, hk, htracker]
  · simp [hactions]

theorem deadlineOf_steady (hs : s.IsSteady) (now : Instant) (options : Options) :
    (s.deadlineOf (Clock.steady now) options).1 = options.responseTimeout.map (now + ·) := by
  unfold deadlineOf
  cases options.responseTimeout with
  | none => rfl
  | some span => simp [hs.timer, Timer.isAbsent, Clock.reading_steady]

theorem overdue_onNegotiationFailed (s : Session) (fault : Fault) :
    overdue (s.onNegotiationFailed fault).actions = [] := by
  have hfallen (r : Session) : overdue r.enterClosed.actions = [] := by
    unfold enterClosed
    cases r.phase with
    | established w t => exact Tracker.overdue_fails _ _
    | _ => rfl
  exact hfallen s.cancelNegotiationTimeout

theorem overdue_dispatch (s : Session) (clock : Clock) (options : Options) (request : Request)
    (sink : Nat) : overdue (s.dispatch clock options request sink).actions = [] := by
  cases ht : s.traffic? with
  | none =>
      rw [dispatch_of_none ht]
      rfl
  | some c =>
      cases hroom : c.hasRoom with
      | false =>
          rw [dispatch_of_full ht hroom]
          rfl
      | true =>
          rw [(dispatch_of_room ht hroom clock options request sink).2]
          exact c.overdue_enroll _ _ _ _

theorem respond_timely (s : Session) (hk : ∀ clock, i ≠ .keepTime clock)
    (hw : ∀ clock gone, i ≠ .write clock gone) : overdue (s.respond i).actions = [] := by
  cases i with
  | keepTime clock => exact absurd rfl (hk clock)
  | write clock gone => exact absurd rfl (hw clock gone)
  | negotiated promise reachable p =>
      by_cases hn : s.phase = .negotiating
      · obtain ⟨fault, he⟩ | ⟨encoder, -, -, hidle⟩ := onNegotiated_cases hn promise reachable p
        · rw [respond, he]
          exact overdue_onNegotiationFailed _ fault
        · exact overdue_of_idle hidle
      · rw [respond, onNegotiated_ignored hn]
        rfl
  | negotiationFailed fault => exact overdue_onNegotiationFailed s fault
  | dropped reason =>
      simp only [respond, abandon]
      split
      · exact Tracker.overdue_fails _ _
      · rfl
  | closed promise =>
      have hfarewell : overdue [s.farewell promise] = [] :=
        overdue_of_idle (by simp [farewell_isIdle])
      simp only [respond, onTransportClosed]
      split
      · rfl
      · rw [overdue_append, hfarewell, List.append_nil]
        split
        · exact Tracker.overdue_fails _ _
        · rfl
  | dispatch clock options request sink =>
      simpa [respond] using s.overdue_dispatch clock options request sink
  | response stream part =>
      simp only [respond, onResponse]
      split
      · rfl
      · rfl
      · simp only [Traced.actions_bind, Traced.actions_pure, overdue_append, Tracker.overdue_receive]
        split <;> rfl
  | message m =>
      simp only [respond, onMessage]
      split <;> rfl
  | transportError e =>
      simp only [respond, onTransportError, Traced.actions_bind, Traced.actions_pure, List.append_nil]
      split <;> rfl
  | _ => rfl

theorem turn_of_overdue {x : Nat × Fault} (h : x ∈ overdue (s.respond i).actions) :
    ∃ clock, i = .keepTime clock ∨ ∃ gone, i = .write clock gone := by
  by_contra hnot
  have hnone := s.respond_timely (i := i) (fun clock he => hnot ⟨clock, .inl he⟩)
    fun clock gone he => hnot ⟨clock, .inr ⟨gone, he⟩⟩
  simp [hnone] at h

theorem respond_dated {asked : Nat → Nat → Instant → Options → Prop} {begun : Nat → Instant → Prop}
    (hs : s.IsSteady) (hi : i.IsSteady) (ht : s.traffic? = some c) (unarmed : s.negotiation = none)
    (hc : c.Dated asked begun)
    (ha : ∀ now options request sink, i = .dispatch (Clock.steady now) options request sink →
      ∀ seq, (seq, sink) ∈ enrolled (ofActions (s.respond i).actions) → asked seq sink now options)
    (hb : ∀ now gone, i = .write (Clock.steady now) gone →
      ∀ seq ∈ launched (ofActions (s.respond i).actions), begun seq now)
    (hd : (s.respond i).value.traffic? = some d) : d.Dated asked begun := by
  obtain ⟨hphase, -, -⟩ := traffic?_eq_some ht
  have still (h : (s.respond i).value.traffic? = s.traffic?) : d.Dated asked begun := by
    obtain rfl := Option.some.inj (ht.symm.trans (h.symm.trans hd))
    exact hc
  cases i with
  | fire => exact absurd rfl hi.unforced
  | dispatch clock options request sink =>
      obtain ⟨now, rfl⟩ := hi.timed clock rfl
      have hd : (s.dispatch (Clock.steady now) options request sink).value.1.traffic? = some d := hd
      cases hroom : c.hasRoom with
      | false => exact still (by simp [respond, dispatch_of_full ht hroom, refuse])
      | true =>
          obtain ⟨hvalue, hactions⟩ := dispatch_of_room ht hroom (Clock.steady now) options request sink
          rw [deadlineOf_steady hs] at hvalue hactions
          obtain rfl := Option.some.inj (hvalue.symm.trans hd)
          refine hc.enroll options request (ha now options request sink rfl _ ?_)
          simp [respond, hactions, Traffic.enrolled_enroll]
  | response stream part =>
      obtain ⟨hvalue, -⟩ := response_established ht stream part
      obtain rfl := Option.some.inj (hvalue.symm.trans hd)
      exact hc.narrow (.ofTracker (c.tracker.receive_terms stream part))
  | keepTime clock =>
      obtain ⟨now, rfl⟩ := hi.timed clock rfl
      obtain ⟨hvalue, -⟩ := keepTime_steady hs ht unarmed now
      obtain rfl := Option.some.inj (hvalue.symm.trans hd)
      exact hc.narrow (.ofTracker (Tracker.terms_subset (c.tracker.expire_subset now)))
  | write clock gone =>
      obtain ⟨now, rfl⟩ := hi.timed clock rfl
      obtain ⟨hvalue, hactions⟩ := write_established ht (Clock.steady now) gone
      obtain rfl := Option.some.inj (hvalue.symm.trans hd)
      have hpath := Traffic.written_path (Clock.steady now) gone c
      exact hpath.dated hc fun seq hs => hb now gone rfl seq (by rw [hactions]; exact hs)
  | wire f =>
      obtain rfl := Option.some.inj ((wire_established ht f).symm.trans hd)
      exact ⟨hc.timer, hc.awaited, hc.waiting, hc.writing⟩
  | sink f =>
      obtain rfl := Option.some.inj ((sink_established ht f).symm.trans hd)
      exact ⟨hc.timer, hc.awaited, hc.waiting, hc.writing⟩
  | feed source frames ended =>
      obtain rfl := Option.some.inj ((feed_established ht source frames ended).symm.trans hd)
      exact hc.narrow (c.feed_narrows source frames ended)
  | negotiated promise reachable p =>
      exact still (by rw [respond, onNegotiated_ignored (by simp [hphase])])
  | negotiationFailed fault => simp [respond, traffic?] at hd
  | dropped reason => simp [respond, traffic?] at hd
  | closed promise =>
      cases hclosed : s.transportClosed with
      | true => exact still (by rw [respond, onTransportClosed_again hclosed])
      | false => simp [respond, onTransportClosed_value hclosed, traffic?] at hd
  | message m =>
      refine still ?_
      simp only [respond, onMessage]
      split <;> rfl
  | transportError e | activate | deactivate | markFallback | publish | linked => exact still rfl

theorem IsSteady.after (hs : s.IsSteady) (hi : ∀ i ∈ inputs, i.IsSteady) : (s.after inputs).IsSteady := by
  induction inputs generalizing s with
  | nil => exact hs
  | cons i rest ih =>
      have hrests := respond_rests hs (hi i List.mem_cons_self)
      have hsteady := hrests.steady hs
      rw [after_cons]
      exact ih ⟨hsteady.timer, hsteady.alarm⟩ fun j hj => hi j (List.mem_cons_of_mem _ hj)

theorem IsNew.sleeps (hs : s.IsNew) :
    s.alarm = none ∧ ∀ n, s.negotiation = some n → n.fired = false := by
  obtain ⟨channel, timer, clock, limit, ceiling, speaksHttp1, hnew⟩ := hs
  unfold Session.new at hnew
  cases hm : limit.mapM (timer.sleep clock) with
  | error text => simp [hm, bind, Except.bind] at hnew
  | ok negotiation =>
      simp only [hm, bind, Except.bind, pure, Except.pure, Except.ok.injEq] at hnew
      subst hnew
      refine ⟨rfl, ?_⟩
      rintro n rfl
      cases limit with
      | none => simp [pure, Except.pure] at hm
      | some span =>
          cases timer with
          | absent => simp [Timer.sleep, Timer.sleepUntil, Timer.isAbsent, Functor.map, Except.map] at hm
          | present =>
              simp [Timer.sleep, Timer.sleepUntil, Timer.isAbsent, Functor.map, Except.map] at hm
              subst hm
              rfl

theorem IsNew.isSteady (hs : s.IsNew) (steady : s.timer = .present) : s.IsSteady :=
  ⟨steady, by simp [hs.sleeps.1]⟩

theorem dated_of_none (hs : s.IsSteady) (hn : s.traffic? = none) (i : Input)
    {asked : Nat → Nat → Instant → Options → Prop} {begun : Nat → Instant → Prop}
    (hd : (s.respond i).value.traffic? = some d) : d.Dated asked begun := by
  rcases traffic?_eq_none.1 hn with h | h
  · rcases respond_negotiating h i with ⟨hphase, -⟩ | ⟨hphase, -⟩ | ⟨p, encoder, -, -, hfresh⟩
    · simp [traffic?, hphase] at hd
    · simp [traffic?, hphase] at hd
    · obtain rfl := Option.some.inj (hfresh.symm.trans hd)
      have hc : (Traffic.fresh s.ceiling encoder s.timer).Dated asked begun :=
        hs.timer ▸ .fresh s.ceiling encoder
      exact ⟨hc.timer, hc.awaited, hc.waiting, hc.writing⟩
  · simp [traffic?, respond_closed h i] at hd

theorem write_traffic {clock : Clock} {gone : Nat → Bool}
    (hd : (s.respond (.write clock gone)).value.traffic? = some d) :
    ∃ c, s.traffic? = some c
      ∧ d = { c with
          writer := (Written.of clock gone c.writer c.tracker).value.writer
          tracker := (Written.of clock gone c.writer c.tracker).value.tracker } := by
  cases ht : s.traffic? with
  | none =>
      have hphase := (respond_resting ht (i := .write clock gone) rfl).1
      rcases traffic?_eq_none.1 ht with h | h <;> simp [traffic?, hphase, h] at hd
  | some c => exact ⟨c, rfl, (Option.some.inj ((write_established ht clock gone).1.symm.trans hd)).symm⟩

theorem keepTime_undue (hs : s.IsSteady) (unarmed : s.traffic?.isSome = true → s.negotiation = none)
    (hd : (s.respond (.keepTime (Clock.steady now))).value.traffic? = some d) :
    ∀ p ∈ d.tracker.pending, p.isDue now = false := by
  cases ht : s.traffic? with
  | none =>
      have hphase := (respond_resting ht (i := .keepTime (Clock.steady now)) rfl).1
      rcases traffic?_eq_none.1 ht with h | h <;> simp [traffic?, hphase, h] at hd
  | some c =>
      obtain ⟨hvalue, -⟩ := keepTime_steady hs ht (unarmed (by simp [ht])) now
      obtain rfl := Option.some.inj (hvalue.symm.trans hd)
      exact c.tracker.expire_undue now

theorem write_negotiation (s : Session) (clock : Clock) (gone : Nat → Bool) :
    (s.write clock gone).value.1.negotiation = s.negotiation := by
  unfold Session.write
  split <;> rfl

theorem keepNegotiation_unover (clock : Clock) {n : Sleep}
    (h : (s.keepNegotiation clock).value.negotiation = some n) : n.isOver clock = false := by
  unfold keepNegotiation at h
  split at h
  · simp [onNegotiationTimeout, cancelNegotiationTimeout] at h
  · rename_i hquiet
    have h : s.negotiation = some n := h
    simpa [h] using hquiet

end Session

end HttpSession
