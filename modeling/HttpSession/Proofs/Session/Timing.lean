import HttpSession.Proofs.Session.Coherence
import HttpSession.Proofs.Tracker.Deadlines

namespace HttpSession

open Happening (ofActions deeds)

variable {now : Instant}

theorem Sleep.isOver_steady {n : Sleep} (h : n.fired = false) (now : Instant) :
    n.isOver (Clock.steady now) = decide (n.deadline ≤ now) := by
  simp [isOver, h, Clock.steady]

theorem Timer.reset_steady {alarm : Option Sleep} (h : ∀ n, alarm = some n → n.fired = false)
    (deadline : Instant) : Timer.present.reset alarm deadline = .ok ⟨deadline, false⟩ := by
  unfold reset
  split
  · rename_i n
    split
    · obtain ⟨due, fired⟩ := n
      obtain rfl : fired = false := h _ rfl
      subst_vars
      rfl
    · rfl
  · rfl

theorem Clock.reading_steady (now : Instant) (readings : Nat) :
    (Clock.steady now).reading readings = now := by
  simp [steady, reading]

namespace AlarmCheck

variable {alarm : Option Sleep} {t : Tracker}

theorem of_steady (h : ∀ n, alarm = some n → n.fired = false) {next : Instant}
    (hnext : t.nextDeadline = some next) :
    of .present (Clock.steady now) alarm t
      = if next ≤ now then .due next else .quiet (some ⟨next, false⟩) := by
  simp [of, hnext, Timer.reset_steady h, Sleep.isOver, Clock.steady]

theorem quiet_of_undue (h : ∀ n, alarm = some n → n.fired = false)
    (hundue : ∀ next, t.nextDeadline = some next → now < next) :
    ∃ later, of .present (Clock.steady now) alarm t = .quiet later
      ∧ ∀ n, later = some n → n.fired = false := by
  cases hnext : t.nextDeadline with
  | none => exact ⟨none, by simp [of, hnext], by simp⟩
  | some next =>
      refine ⟨some ⟨next, false⟩, ?_, fun n hn => Option.some.inj hn ▸ rfl⟩
      rw [of_steady h hnext, if_neg (Nat.not_le.2 (hundue next hnext))]

end AlarmCheck

theorem TimerLoop.run_steady {v : TimerLoop} (h : ∀ n, v.alarm = some n → n.fired = false)
    (now : Instant) :
    let kept := v.run .present (Clock.steady now)
    (∀ n, kept.value.alarm = some n → n.fired = false)
      ∧ kept.value.tracker = (v.tracker.expire now).value
      ∧ kept.actions = (v.tracker.expire now).actions := by
  by_cases hundue : ∀ next, v.tracker.nextDeadline = some next → now < next
  · obtain ⟨later, hquiet, hlater⟩ := AlarmCheck.quiet_of_undue h hundue
    rw [run_quiet hquiet, Tracker.expire_of_undue (Tracker.undue_of_nextDeadline hundue)]
    exact ⟨hlater, rfl, rfl⟩
  · obtain ⟨next, hnext, hle⟩ : ∃ next, v.tracker.nextDeadline = some next ∧ next ≤ now := by
      simpa using hundue
    have hdue : v.check .present (Clock.steady now) = .due next := by
      rw [check, AlarmCheck.of_steady h hnext, if_pos hle]
    have hnow : max ((Clock.steady now).reading v.readings) next = now := by
      rw [Clock.reading_steady, Nat.max_eq_left hle]
    -- Nothing is due any more when the alarm is set again.
    have hrest (later : Instant) (hl : (v.tracker.expire now).value.nextDeadline = some later) :
        now < later := by
      by_contra hnot
      obtain ⟨p, hp, hp'⟩ := Tracker.exists_isDue_of_nextDeadline hl (Nat.not_lt.1 hnot)
      exact absurd ((v.tracker.expire_undue now p hp).symm.trans hp') (by decide)
    generalize hexpired : (v.consult .present (Clock.steady now)).expire (Clock.steady now) next = r
    have htracker : r.value.tracker = (v.tracker.expire now).value := by
      rw [← hexpired, expire_tracker]
      exact congrArg (fun moment => (v.tracker.expire moment).value) hnow
    have hactions : r.actions = (v.tracker.expire now).actions := by
      rw [← hexpired, expire_actions]
      exact congrArg (fun moment => (v.tracker.expire moment).actions) hnow
    have hunset (n : Sleep) (hn : r.value.alarm = some n) : n.fired = false := by
      rw [← hexpired] at hn
      simp [expire] at hn
    obtain ⟨later, hquiet, hlater⟩ := AlarmCheck.quiet_of_undue hunset (htracker ▸ hrest)
    have hlast : r.value.run .present (Clock.steady now) = _ := run_quiet hquiet
    rw [run_due hdue, hexpired]
    simp only [Traced.value_bind, Traced.actions_bind, hlast]
    exact ⟨hlater, htracker, by simp [hactions]⟩

namespace Writer

variable {clock : Clock}

theorem pass_timely {encoder : Encoder} {active : List InFlight}
    (hs : (pass clock encoder active).stop = none) (hf : ¬(pass clock encoder active).finished = true) :
    ∀ f ∈ (pass clock encoder active).left, f.isLate clock = false := by
  induction active generalizing encoder with
  | nil => simp [pass]
  | cons f rest ih =>
      cases hst : (f.poll clock encoder).stage with
      | waiting body =>
          rw [pass_waiting rfl hst] at hs hf ⊢
          intro g hg
          rcases List.mem_cons.1 hg with rfl | hg
          · by_contra hlate
            have hlate : f.isLate clock = true := by simpa [InFlight.isLate] using hlate
            simp [InFlight.poll, hlate, Transfer.giveUp] at hst
          · exact ih hs hf g hg
      | done => simp [pass_done rfl hst, Pass.after, Pass.drop] at hf
      | failed fault => simp [pass_failed rfl hst] at hf
      | crashed text body => simp [pass_crashed rfl hst] at hs

theorem advance_timely (canceled : Nat → Bool) (w : Writer)
    (h : (advance clock canceled w).standing = .empty ∨ (advance clock canceled w).standing = .pending) :
    ∀ f ∈ (advance clock canceled w).writer.active, f.isLate clock = false := by
  induction w using advance.induct clock canceled with
  | case1 w l u hu => simp [advance_unwritten rfl hu] at h
  | case2 w l hu hn =>
      have hnone : (w.launch clock canceled).writer.active = [] := List.isEmpty_iff.1 hn
      rw [advance_empty rfl hu hn]
      simp [hnone]
  | case3 w l hu hn p standing hs =>
      rw [advance_stopped rfl hu hn rfl hs] at h
      exact absurd h (not_or.2 (pass_stop hs))
  | case4 w l hu hn p rest hs hf ih =>
      rw [advance_again rfl hu hn rfl hs hf] at h ⊢
      exact ih h
  | case5 w l hu hn p hs hf =>
      rw [advance_pending rfl hu hn rfl hs hf]
      exact pass_timely hs hf

end Writer

theorem Written.of_timely (clock : Clock) (gone : Nat → Bool) (w : Writer) (t : Tracker)
    (h : (Written.of clock gone w t).value.crash = none) :
    ∀ f ∈ (Written.of clock gone w t).value.writer.active, f.isLate clock = false := by
  induction w, t using Written.of_induction clock gone with
  | failed w t seq fault hs ih =>
      rw [Written.of_failed hs] at h ⊢
      exact ih _ h
  | canceled w t seq hs ih =>
      rw [Written.of_canceled hs] at h ⊢
      exact ih _ h
  | crashed w t text hs => simp [Written.of_crashed hs] at h
  | written w t hs =>
      rw [Written.of_written hs]
      exact Writer.advance_timely _ _ hs

end HttpSession
