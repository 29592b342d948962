import HttpSession.Proofs.Connection.Deadlines

namespace HttpSession

open Happening (ofActions deeds)

namespace Tracker

variable {t u : Tracker}

def deadlines (t : Tracker) : List Instant := t.pending.filterMap (·.deadline)

theorem deadlines_subset (h : u.terms ⊆ t.terms) : u.deadlines ⊆ t.deadlines := by
  intro due hdue
  obtain ⟨p, hp, hd⟩ := List.mem_filterMap.1 hdue
  obtain ⟨q, hq, hterm⟩ := List.mem_map.1 (h (mem_terms hp))
  have hsame : q.deadline = p.deadline := congrArg (·.2.2) hterm
  exact List.mem_filterMap.2 ⟨q, hq, hsame.trans hd⟩

theorem nextDeadline_le {next due : Instant} (h : t.nextDeadline = some next) (hd : due ∈ t.deadlines) :
    next ≤ due :=
  (List.min?_eq_some_iff.1 h).2 due hd

end Tracker

theorem Timer.reset_deadline {timer : Timer} {alarm : Option Sleep} {deadline : Instant} {n : Sleep}
    (h : timer.reset alarm deadline = .ok n) : n.deadline = deadline := by
  have hfresh (h : timer.sleepUntil deadline = .ok n) : n.deadline = deadline := by
    unfold sleepUntil at h
    split at h
    · simp at h
    · rw [← Except.ok.inj h]
  unfold reset at h
  split at h
  · split at h
    · rwa [← Except.ok.inj h]
    · exact hfresh h
  · exact hfresh h

namespace AlarmCheck

variable {timer : Timer} {clock : Clock} {alarm later : Option Sleep} {t : Tracker}

theorem of_quiet (h : of timer clock alarm t = .quiet later) :
    t.nextDeadline = later.map Sleep.deadline
      ∧ consulted timer clock alarm t = later.toList.map fun n => (n, false) := by
  unfold of at h
  split at h
  · rename_i hnone
    obtain rfl := AlarmCheck.quiet.inj h
    exact ⟨hnone, by simp [consulted, hnone]⟩
  · rename_i next hnext
    split at h
    · simp at h
    · rename_i n hreset
      split at h
      · simp at h
      · rename_i hquiet
        obtain rfl := AlarmCheck.quiet.inj h
        refine ⟨by rw [hnext, Option.map_some, Timer.reset_deadline hreset], ?_⟩
        simp [consulted, hnext, hreset, Except.toOption, hquiet]

end AlarmCheck

structure TimerLoop.IsSet (v : TimerLoop) : Prop where
  earliest : v.tracker.nextDeadline = v.alarm.map Sleep.deadline
  last : ∀ n, v.alarm = some n → v.consulted.getLast? = some (n, false)

theorem TimerLoop.run_isSet {timer : Timer} {clock : Clock} {v : TimerLoop}
    (h : (v.run timer clock).value.crash = none) : (v.run timer clock).value.IsSet := by
  induction v using TimerLoop.run.induct timer clock with
  | case1 v later hcheck =>
      obtain ⟨hnext, hasked⟩ := AlarmCheck.of_quiet hcheck
      rw [run_quiet hcheck]
      refine ⟨hnext, fun n hn => ?_⟩
      obtain rfl : later = some n := hn
      simp [consult, hasked]
  | case2 v text hcheck => simp [run_broken hcheck] at h
  | case3 v deadline hcheck expired ih =>
      rw [run_due hcheck] at h ⊢
      exact ih h

namespace Session

variable {s : Session} {c d : Traffic} {i : Input} {clock : Clock}

def consulted (s : Session) (clock : Clock) : List (Sleep × Bool) :=
  match s.phase with
  | .established _ t => ((s.timerLoop t).run s.timer clock).value.consulted
  | _ => []

theorem keepTime_isSet {t : Tracker} (h : (s.keepTime clock).value.2 = none)
    (ht : (s.respond (.keepTime clock)).value.tracker? = some t) :
    let alarm := (s.respond (.keepTime clock)).value.alarm
    t.nextDeadline = alarm.map Sleep.deadline
      ∧ ∀ n, alarm = some n → (s.consulted clock).getLast? = some (n, false) := by
  cases hc : s.traffic? with
  | none =>
      obtain ⟨d, hd, -⟩ := traffic_of_tracker ht
      have hphase := (respond_resting hc (i := .keepTime clock) rfl).1
      rcases traffic?_eq_none.1 hc with h | h <;> simp [traffic?, hphase, h] at hd
  | some c =>
      obtain ⟨hphase, -⟩ := traffic?_eq_some hc
      simp only [respond, keepTime_of_established hphase] at h ht ⊢
      obtain ⟨hearliest, hlast⟩ := TimerLoop.run_isSet h
      obtain rfl : _ = t := Option.some.inj ht
      refine ⟨hearliest, fun n hn => ?_⟩
      rw [consulted, hphase]
      exact hlast n hn

theorem write_alarm (s : Session) (clock : Clock) (gone : Nat → Bool) :
    (s.respond (.write clock gone)).value.alarm = s.alarm := by
  simp only [respond, Session.write]
  split <;> rfl

theorem write_deadlines (clock : Clock) (gone : Nat → Bool) {t : Tracker}
    (ht : (s.respond (.write clock gone)).value.tracker? = some t) :
    ∃ u, s.tracker? = some u ∧ t.deadlines ⊆ u.deadlines := by
  obtain ⟨d, hd, rfl⟩ := traffic_of_tracker ht
  obtain ⟨c, hc, rfl⟩ := write_traffic hd
  refine ⟨c.tracker, by simp [tracker?, (traffic?_eq_some hc).1], ?_⟩
  exact Tracker.deadlines_subset (Traffic.written_path clock gone c).terms

/-- No response is due before the alarm goes off. -/
def Guarded (s : Session) : Prop :=
  ∀ t, s.tracker? = some t → ∀ due ∈ t.deadlines, ∃ n, s.alarm = some n ∧ n.deadline ≤ due

theorem mapWriter_guarded (h : s.Guarded) (f : Writer → Writer) : (s.mapWriter f).Guarded := by
  unfold mapWriter
  split
  · rename_i w t hphase
    rintro u hu
    obtain rfl : t = u := Option.some.inj hu
    exact h t (by simp [tracker?, hphase])
  · exact h

theorem respond_guarded (h : s.Guarded)
    (hi : i.isOuter = true ∨ (∃ source frames ended, i = .feed source frames ended)
      ∨ ∃ reason, i = .dropped reason) : (s.respond i).value.Guarded := by
  rcases hi with hi | ⟨source, frames, ended, rfl⟩ | ⟨reason, rfl⟩
  · cases i with
    | fire =>
        refine mapWriter_guarded (s := { s with
          negotiation := s.negotiation.map Sleep.fire, alarm := s.alarm.map Sleep.fire }) ?_ _
        intro t ht due hdue
        obtain ⟨n, hn, hle⟩ := h t ht due hdue
        exact ⟨n.fire, by simp [hn], hle⟩
    | wire f =>
        exact mapWriter_guarded (s := { s with
          channel := { s.channel with wire := f s.channel.wire } }) h _
    | sink f =>
        exact mapWriter_guarded (s := { s with
          channel := { s.channel with frames := s.channel.frames.map f } }) h _
    | deactivate | markFallback | linked => exact h
    | _ => simp [Input.isOuter] at hi
  · exact mapWriter_guarded h _
  · rw [respond, abandon_value]
    intro t ht
    simp [tracker?] at ht

end Session

namespace Service

variable {s : Service}

theorem meet_guarded (h : s.session.Guarded) {o : Occasion} (ho : o.isPoll = false) :
    (s.meet o).value.session.Guarded := by
  rw [(s.meet_hears o).session, meet_inputs]
  cases o with
  | poll => simp [Occasion.isPoll] at ho
  | drop crashed => exact Session.respond_guarded h (.inr (.inr ⟨_, rfl⟩))
  | feed source frames ended => exact Session.respond_guarded h (.inr (.inl ⟨_, _, _, rfl⟩))
  | touch i outer => exact Session.respond_guarded h (.inl outer)
  | tell | ask | hold | cut | promise => exact h

theorem run_guarded (h : s.session.Guarded) {occasions : List Occasion}
    (ho : ∀ o ∈ occasions, o.isPoll = false) : (s.run occasions).value.session.Guarded := by
  induction occasions generalizing s with
  | nil => exact h
  | cons o rest ih =>
      exact ih (meet_guarded h (ho o List.mem_cons_self)) fun o ho' => ho o (List.mem_cons_of_mem _ ho')

theorem session_of_pending {before : List Input} {clock : Clock} {gone : Nat → Bool}
    (hheard : (s.meet (.poll clock gone)).inputs
      = before ++ [.keepTime clock, .write clock gone, .publish]) :
    let kept := (s.session.after before).respond (.keepTime clock)
    let next := (s.meet (.poll clock gone)).value.session
    next.alarm = kept.value.alarm
      ∧ ∀ t, next.tracker? = some t →
        ∃ u, kept.value.tracker? = some u ∧ t.deadlines ⊆ u.deadlines := by
  intro kept next
  have hnext : next
      = ((((s.session.after before).step (.keepTime clock)).value.step (.write clock gone)).value.step
        .publish).value := by
    simp only [next]
    rw [(s.meet_hears (.poll clock gone)).session, hheard, Session.after_append]
    rfl
  rw [hnext]
  constructor
  · exact Session.write_alarm ((s.session.after before).step (.keepTime clock)).value clock gone
  · intro t ht
    exact Session.write_deadlines (s := ((s.session.after before).step (.keepTime clock)).value) clock gone ht

theorem alarm_of_pending {clock : Clock} {gone : Nat → Bool} {woken : Bool} {t : Tracker}
    (hp : (s.polled clock gone).value.2 = .pending woken)
    (ht : (s.meet (.poll clock gone)).value.session.tracker? = some t) :
    let alarm := (s.meet (.poll clock gone)).value.session.alarm
    ∃ before u, (s.meet (.poll clock gone)).inputs
        = before ++ [.keepTime clock, .write clock gone, .publish]
      ∧ (s.session.after (before ++ [.keepTime clock])).tracker? = some u ∧ t.deadlines ⊆ u.deadlines
      ∧ (∀ due ∈ u.deadlines, ∃ n, alarm = some n ∧ n.deadline ≤ due
        ∧ ((s.session.after before).consulted clock).getLast? = some (n, false))
      ∧ (u.deadlines = [] → alarm = none) := by
  intro alarm
  obtain ⟨before, hheard, hunbroken, -⟩ := inputs_of_pending hp
  obtain ⟨halarm, hwritten⟩ := session_of_pending hheard
  obtain ⟨u, hu, hsub⟩ := hwritten t ht
  obtain ⟨hearliest, hlast⟩ := Session.keepTime_isSet hunbroken hu
  have hearliest : u.nextDeadline = alarm.map Sleep.deadline := by rwa [← halarm] at hearliest
  have hlast : ∀ n, alarm = some n →
      ((s.session.after before).consulted clock).getLast? = some (n, false) := by rwa [← halarm] at hlast
  refine ⟨before, u, hheard, by rwa [Session.after_concat], hsub, fun due hdue => ?_, fun hnone => ?_⟩
  · obtain ⟨n, hn, hnext⟩ : ∃ n, alarm = some n ∧ u.nextDeadline = some n.deadline := by
      cases hn : alarm with
      | none =>
          rw [hn] at hearliest
          simp [List.min?_eq_none_iff.1 hearliest, Tracker.deadlines] at hdue
      | some n => exact ⟨n, rfl, by rw [hearliest, hn, Option.map_some]⟩
    exact ⟨n, hn, Tracker.nextDeadline_le hnext hdue, hlast n hn⟩
  · have hnone : u.nextDeadline = none := List.min?_eq_none_iff.2 hnone
    exact Option.map_eq_none_iff.1 (hearliest.symm.trans hnone)

/-- A poll that is to go on leaves the alarm at the earliest deadline that was left when time had been
kept. What is written then may only do away with deadlines, and until the next poll none passes before
the alarm goes off. -/
theorem alarm_set (session : Session) (id k : Nat) (closesAtOnce : Bool) (promise : Promise)
    (occasions : List Occasion) {clock : Clock} {gone : Nat → Bool} {woken : Bool} {t : Tracker} :
    let r := (start id k session closesAtOnce promise).run occasions
    let next := r.value.meet (.poll clock gone)
    (r.value.polled clock gone).value.2 = .pending woken → next.value.session.tracker? = some t →
      (∃ before u,
        next.inputs = before ++ [.keepTime clock, .write clock gone, .publish]
          ∧ (r.value.session.after (before ++ [.keepTime clock])).tracker? = some u
          ∧ t.deadlines ⊆ u.deadlines
          ∧ (∀ due ∈ u.deadlines, ∃ n, next.value.session.alarm = some n ∧ n.deadline ≤ due
            ∧ ((r.value.session.after before).consulted clock).getLast? = some (n, false))
          ∧ (u.deadlines = [] → next.value.session.alarm = none))
        ∧ ∀ later : List Occasion, (∀ o ∈ later, o.isPoll = false) →
          (next.value.run later).value.session.Guarded := by
  intro r next hp ht
  obtain ⟨before, u, hheard, hu, hsub, hset, hunset⟩ := alarm_of_pending hp ht
  refine ⟨⟨before, u, hheard, hu, hsub, hset, hunset⟩, fun later hlater => ?_⟩
  refine run_guarded (fun v hv due hdue => ?_) hlater
  obtain rfl : t = v := Option.some.inj (ht.symm.trans hv)
  obtain ⟨n, hn, hle, -⟩ := hset due (hsub hdue)
  exact ⟨n, hn, hle⟩

def tightened : List Occasion :=
  [.tell [.negotiated .h2] (by simp [Event.debts]),
    .ask { Options.default with responseTimeout := some 5 } .bare, .poll (.steady 0) fun _ => false,
    .ask { Options.default with responseTimeout := some 9 } .bare,
    .ask { Options.default with responseTimeout := some 1 } .bare]

theorem alarm_set_tightened :
    let r := (start 0 0 hurried false .new).run tightened
    let next := (r.value.meet (.poll (.steady 6) (· == 2))).value
    next.session.tracker?.map Tracker.deadlines = some [15] ∧ next.session.alarm = some ⟨7, false⟩
      ∧ (∃ before, ((r.value.session.after before).consulted (.steady 6)).getLast?
          = some (⟨7, false⟩, false))
      ∧ (next.run [.touch .fire rfl]).value.session.Guarded := by
  intro r next
  have hpending : (r.value.polled (.steady 6) (· == 2)).value.2 = .pending false := by decide +kernel
  have hdeadlines : next.session.tracker?.map Tracker.deadlines = some [15] := by decide +kernel
  have halarm : next.session.alarm = some ⟨7, false⟩ := by decide +kernel
  obtain ⟨t, ht, hdue⟩ := Option.map_eq_some_iff.1 hdeadlines
  obtain ⟨⟨before, u, -, -, hsub, hset, -⟩, hguarded⟩ :=
    alarm_set hurried 0 0 false .new tightened hpending ht
  obtain ⟨n, hn, -, hlast⟩ := hset 15 (hsub (by simp [hdue]))
  obtain rfl := Option.some.inj (halarm.symm.trans hn)
  exact ⟨hdeadlines, halarm, ⟨before, hlast⟩, hguarded [.touch .fire rfl] (by simp [Occasion.isPoll])⟩

end Service

end HttpSession
