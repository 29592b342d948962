import HttpSession.Proofs.Connection.Alarm

namespace HttpSession

namespace Tracker

variable {t : Tracker} {next now : Instant}

theorem expire_sublist (t : Tracker) (now : Instant) :
    (t.expire now).value.pending.Sublist t.pending := by
  unfold expire
  dsimp only
  split
  · exact .refl _
  · simp only [Traced.value_bind]
    rcases afterAbandon_pending { t with pending := t.pending.filter fun p => !p.isDue now }
      ((t.pending.filter (·.isDue now)).map Pending.seq) with h | h
    · exact h ▸ List.filter_sublist
    · exact h ▸ List.nil_sublist _

theorem deadline_of_expire {p : Pending} {due : Instant} (hp : p ∈ (t.expire now).value.pending)
    (hd : p.deadline = some due) : now < due := by
  have hundue := t.expire_undue now p hp
  simpa [Pending.isDue, hd] using hundue

theorem expire_deadlines_lt (h : t.nextDeadline = some next) (hle : next ≤ now) :
    (t.expire now).value.deadlines.length < t.deadlines.length := by
  have hsub : (t.expire now).value.deadlines.Sublist t.deadlines := (t.expire_sublist now).filterMap _
  refine Nat.lt_of_le_of_ne hsub.length_le fun hlength => ?_
  have hfirst : next ∈ t.deadlines := List.min?_mem h
  rw [← hsub.eq_of_length hlength] at hfirst
  obtain ⟨p, hp, hd⟩ := List.mem_filterMap.1 hfirst
  exact absurd (deadline_of_expire hp hd) (Nat.not_lt.2 hle)

theorem expire_all (ordered : t.binding = .ordered) (synced : t.desynced = false)
    (h : t.nextDeadline = some next) (hle : next ≤ now) : (t.expire now).value.pending = [] := by
  obtain ⟨p, hp, hdue⟩ := exists_isDue_of_nextDeadline h hle
  have hsome : (t.pending.filter (·.isDue now)).isEmpty = false := by
    rw [List.isEmpty_eq_false_iff_exists_mem]
    exact ⟨p, List.mem_filter.2 ⟨hp, hdue⟩⟩
  simp [expire, hsome, afterAbandon, ordered, desync, synced]

end Tracker

namespace TimerLoop

variable {timer : Timer} {clock : Clock} {clocks : Nat → Clock} {v w : TimerLoop} {r next : Traced TimerLoop}

/-- A pass in which the alarm rings. What is due by then expires, and the next pass sets the alarm anew. -/
def again? (timer : Timer) (clock : Clock) (v : TimerLoop) : Option (Traced TimerLoop) :=
  match v.check timer clock with
  | .due deadline => some ((v.consult timer clock).expire clock deadline)
  | _ => none

def last (timer : Timer) (clock : Clock) (v : TimerLoop) : TimerLoop :=
  match v.check timer clock with
  | .quiet alarm => { v.consult timer clock with alarm := alarm }
  | .broken text => { v.consult timer clock with crash := some text }
  | .due _ => v

/-- Where a loop stands after so many passes in which the alarm rang, if it got so far. The timer may do
something else in every pass: each has a clock of its own, which says what time it is and which sleeps are
over. -/
def passed (timer : Timer) (clocks : Nat → Clock) (v : TimerLoop) : Nat → Option (Traced TimerLoop)
  | 0 => some (pure v)
  | n + 1 => do
      let first ← again? timer (clocks 0) v
      let rest ← passed timer (fun k => clocks (k + 1)) first.value n
      return ⟨rest.value, first.actions ++ rest.actions⟩

theorem again?_eq_some (h : again? timer clock v = some next) :
    ∃ deadline, v.check timer clock = .due deadline
      ∧ next = (v.consult timer clock).expire clock deadline := by
  unfold again? at h
  split at h
  · rename_i deadline hcheck
    exact ⟨deadline, hcheck, (Option.some.inj h).symm⟩
  · simp at h

theorem passed_succ {n : Nat} (h : again? timer (clocks 0) v = some next)
    (hr : passed timer (fun k => clocks (k + 1)) next.value n = some r) :
    passed timer clocks v (n + 1) = some ⟨r.value, next.actions ++ r.actions⟩ := by
  simp [passed, h, hr]

theorem passed_succ_inv {n : Nat} (h : passed timer clocks v (n + 1) = some r) :
    ∃ first rest, again? timer (clocks 0) v = some first
      ∧ passed timer (fun k => clocks (k + 1)) first.value n = some rest
      ∧ r = ⟨rest.value, first.actions ++ rest.actions⟩ := by
  simp only [passed, Option.bind_eq_bind, Option.bind_eq_some_iff] at h
  obtain ⟨first, hfirst, rest, hrest, hr⟩ := h
  exact ⟨first, rest, hfirst, hrest, (Option.some.inj hr).symm⟩

structure Relieves (v w : TimerLoop) : Prop where
  earliest : ∃ deadline, v.tracker.nextDeadline = some deadline
    ∧ ∀ p ∈ w.tracker.pending, ∀ due, p.deadline = some due → deadline < due
  kept : w.tracker.pending.Sublist v.tracker.pending
  fewer : w.tracker.deadlines.length < v.tracker.deadlines.length
  ordered : v.tracker.binding = .ordered → v.tracker.desynced = false → w.tracker.pending = []

theorem again?_relieves (h : again? timer clock v = some next) : v.Relieves next.value := by
  obtain ⟨deadline, hcheck, rfl⟩ := again?_eq_some h
  have hnext : v.tracker.nextDeadline = some deadline := AlarmCheck.nextDeadline_of_due hcheck
  have hreached : deadline ≤ max (clock.reading v.readings) deadline := Nat.le_max_right ..
  have htracker : ((v.consult timer clock).expire clock deadline).value.tracker
      = (v.tracker.expire (max (clock.reading v.readings) deadline)).value := expire_tracker ..
  refine ⟨⟨deadline, hnext, fun p hp due hd => ?_⟩, ?_, ?_, fun ordered synced => ?_⟩
  · rw [htracker] at hp
    exact Nat.lt_of_le_of_lt hreached (Tracker.deadline_of_expire hp hd)
  · exact htracker ▸ v.tracker.expire_sublist _
  · exact htracker ▸ Tracker.expire_deadlines_lt hnext hreached
  · exact htracker ▸ Tracker.expire_all ordered synced hnext hreached

theorem passed_deadlines {n : Nat} (h : passed timer clocks v n = some r) :
    n + r.value.tracker.deadlines.length ≤ v.tracker.deadlines.length := by
  induction n generalizing clocks v r with
  | zero =>
      obtain rfl := Option.some.inj h
      exact Nat.le_of_eq (Nat.zero_add _)
  | succ n ih =>
      obtain ⟨first, rest, hfirst, hrest, rfl⟩ := passed_succ_inv h
      have hfewer := (again?_relieves hfirst).fewer
      have hleft := ih hrest
      dsimp only
      omega

theorem exists_last (timer : Timer) (clocks : Nat → Clock) (v : TimerLoop) :
    ∃ n r, passed timer clocks v n = some r ∧ again? timer (clocks n) r.value = none := by
  induction hn : v.tracker.deadlines.length using Nat.strongRecOn generalizing clocks v with
  | ind k ih =>
      cases hfirst : again? timer (clocks 0) v with
      | none => exact ⟨0, pure v, rfl, hfirst⟩
      | some first =>
          have hfewer := (again?_relieves hfirst).fewer
          obtain ⟨n, rest, hrest, hlast⟩ :=
            ih _ (hn ▸ hfewer) (fun k => clocks (k + 1)) first.value rfl
          exact ⟨n + 1, _, passed_succ hfirst hrest, hlast⟩

theorem run_passes (timer : Timer) (clock : Clock) (v : TimerLoop) :
    ∃ n r, passed timer (fun _ => clock) v n = some r ∧ again? timer clock r.value = none
      ∧ v.run timer clock = ⟨last timer clock r.value, r.actions⟩ := by
  induction v using run.induct timer clock with
  | case1 v later hcheck =>
      exact ⟨0, _, rfl, by simp [again?, hcheck], by simp [run_quiet hcheck, last, hcheck, pure]⟩
  | case2 v text hcheck =>
      exact ⟨0, _, rfl, by simp [again?, hcheck], by simp [run_broken hcheck, last, hcheck, pure]⟩
  | case3 v deadline hcheck expired ih =>
      obtain ⟨n, r, hpassed, hlast, hrun⟩ := ih
      have hfirst : again? timer clock v = some expired := by simp [again?, hcheck, expired]
      refine ⟨n + 1, _, passed_succ hfirst hpassed, hlast, ?_⟩
      rw [run_due hcheck]
      simp only [expired] at hrun ⊢
      simp [bind, hrun]

end TimerLoop

namespace Session

variable {s : Session} {w : Writer} {t : Tracker}

/-- Whatever a session awaits and whatever its timer does, its timer loop ends after no more passes than
there are responses with a deadline, and one. Time is kept by such a loop. -/
theorem timerLoop_ends (h : s.phase = .established w t) :
    (∀ clocks : Nat → Clock, ∃ n r, n + 1 ≤ t.deadlines.length + 1
        ∧ TimerLoop.passed s.timer clocks (s.timerLoop t) n = some r
        ∧ TimerLoop.again? s.timer (clocks n) r.value = none)
      ∧ (∀ clock v next, TimerLoop.again? s.timer clock v = some next → v.Relieves next.value)
      ∧ ∀ clock : Clock, ∃ n r, n + 1 ≤ t.deadlines.length + 1
        ∧ TimerLoop.passed s.timer (fun _ => clock) (s.timerLoop t) n = some r
        ∧ TimerLoop.again? s.timer clock r.value = none
        ∧ s.keepTime clock
          = let v := TimerLoop.last s.timer clock r.value
            ⟨({ (s.keepNegotiation clock).value with
                alarm := v.alarm, readings := v.readings, phase := .established w v.tracker }, v.crash),
              (s.keepNegotiation clock).actions ++ r.actions⟩ := by
  have hbound {clocks : Nat → Clock} {n : Nat} {r : Traced TimerLoop}
      (hr : TimerLoop.passed s.timer clocks (s.timerLoop t) n = some r) :
      n + 1 ≤ t.deadlines.length + 1 :=
    Nat.succ_le_succ (Nat.le_trans (Nat.le_add_right _ _) (TimerLoop.passed_deadlines hr))
  refine ⟨fun clocks => ?_, fun clock v next => TimerLoop.again?_relieves, fun clock => ?_⟩
  · obtain ⟨n, r, hpassed, hlast⟩ := TimerLoop.exists_last s.timer clocks (s.timerLoop t)
    exact ⟨n, r, hbound hpassed, hpassed, hlast⟩
  · obtain ⟨n, r, hpassed, hlast, hrun⟩ := TimerLoop.run_passes s.timer clock (s.timerLoop t)
    refine ⟨n, r, hbound hpassed, hpassed, hlast, ?_⟩
    rw [keepTime_of_established h]
    simp only [hrun]

def impatient : Tracker :=
  (((Tracker.new .byStream).register 1 10 0 (some 7)).register 2 11 0 none).register 3 12 0 (some 5)

def rushed : Clock := ⟨0, 0, fun _ => true⟩

theorem timerLoop_ends_rushed :
    let s : Session := { Session.blank 9 with
      timer := .present, phase := .established (.new (.http2 .fresh) .present true) impatient }
    impatient.deadlines.length = 2
      ∧ (∃ n r, n + 1 ≤ 3 ∧ TimerLoop.passed s.timer (fun _ => rushed) (s.timerLoop impatient) n = some r
        ∧ TimerLoop.again? s.timer rushed r.value = none)
      ∧ (s.keepTime rushed).actions
        = [.answer 12 (.failed Fault.responseTimeout), .answer 10 (.failed Fault.responseTimeout)] := by
  intro s
  have hlength : impatient.deadlines.length = 2 := by decide +kernel
  obtain ⟨hends, -, -⟩ := timerLoop_ends (s := s) rfl
  obtain ⟨n, r, hbound, hpassed, hlast⟩ := hends fun _ => rushed
  exact ⟨hlength, ⟨n, r, by rwa [hlength] at hbound, hpassed, hlast⟩, by decide +kernel⟩

end Session

end HttpSession
