import HttpSession.Session.Progress

namespace HttpSession

namespace Writer

def IsAtRest (w : Writer) : Prop := w.queue = [] ∨ w.mayStart = false

theorem launchFrom_rest (clock : Clock) (canceled : Nat → Bool) (w : Writer) (queue : List Upload)
    (h : (launchFrom clock canceled w queue).unwritten = none) :
    (launchFrom clock canceled w queue).writer.IsAtRest := by
  induction queue generalizing w with
  | nil => exact .inl rfl
  | cons u rest ih =>
      cases hm : w.mayStart with
      | false =>
          rw [launchFrom_full hm]
          exact .inr hm
      | true =>
          cases hc : canceled u.seq with
          | true => simp [launchFrom_canceled hm hc] at h
          | false =>
              cases hf : (w.encoder.put u.seq (.headers u.head u.body.isEnd)).fault with
              | some fault => simp [launchFrom_failed hm hc rfl hf] at h
              | none =>
                  rw [launchFrom_sent hm hc rfl hf] at h ⊢
                  exact ih _ h

theorem launch_rest (clock : Clock) (canceled : Nat → Bool) (w : Writer)
    (h : (w.launch clock canceled).unwritten = none) :
    (w.launch clock canceled).writer.IsAtRest :=
  launchFrom_rest clock canceled w w.queue h

theorem pass_left_of_unfinished (clock : Clock) (encoder : Encoder) (active : List InFlight)
    (hf : (pass clock encoder active).finished = false) :
    (pass clock encoder active).left.length = active.length := by
  induction active generalizing encoder with
  | nil => rfl
  | cons f rest ih =>
      cases hs : (f.poll clock encoder).stage with
      | waiting body =>
          rw [pass_waiting rfl hs] at hf ⊢
          exact congrArg (· + 1) (ih _ hf)
      | done => simp [pass_done rfl hs, Pass.after, Pass.drop] at hf
      | failed fault => simp [pass_failed rfl hs] at hf
      | crashed text body =>
          rw [pass_crashed rfl hs]
          rfl

theorem pass_left_of_stop (clock : Clock) (encoder : Encoder) (active : List InFlight)
    (standing : Standing) (hs : (pass clock encoder active).stop = some standing) :
    (∃ u, standing = .unwritten u) ∨ (pass clock encoder active).left ≠ [] := by
  induction active generalizing encoder with
  | nil => simp [pass] at hs
  | cons f rest ih =>
      cases hst : (f.poll clock encoder).stage with
      | waiting body =>
          rw [pass_waiting rfl hst]
          exact .inr (List.cons_ne_nil _ _)
      | done =>
          rw [pass_done rfl hst] at hs ⊢
          exact ih _ hs
      | failed fault =>
          rw [pass_failed rfl hst] at hs
          exact .inl ⟨_, (Option.some.inj hs).symm⟩
      | crashed text body =>
          rw [pass_crashed rfl hst]
          exact .inr (List.cons_ne_nil _ _)

theorem IsAtRest.keep {w : Writer} (h : w.IsAtRest) {encoder : Encoder} {left : List InFlight}
    (hl : left ≠ []) : IsAtRest { w with encoder := encoder, active := left } := by
  refine h.imp id fun hm => ?_
  simp only [mayStart, Bool.or_eq_false_iff] at hm ⊢
  exact ⟨hm.1, by simpa using hl⟩

theorem advance_rest (clock : Clock) (canceled : Nat → Bool) (w : Writer)
    (h : ∀ u, (advance clock canceled w).standing ≠ .unwritten u) :
    (advance clock canceled w).writer.IsAtRest := by
  induction w using advance.induct clock canceled with
  | case1 w l u hu =>
      rw [advance_unwritten rfl hu] at h
      exact absurd rfl (h u)
  | case2 w l hu hn =>
      rw [advance_empty rfl hu hn]
      exact launch_rest clock canceled w hu
  | case3 w l hu hn p standing hs =>
      rw [advance_stopped rfl hu hn rfl hs] at h ⊢
      rcases pass_left_of_stop clock _ _ standing hs with ⟨u, rfl⟩ | hleft
      · exact absurd rfl (h u)
      · exact (launch_rest clock canceled w hu).keep hleft
  | case4 w l hu hn p rest hs hf ih =>
      rw [advance_again rfl hu hn rfl hs hf] at h ⊢
      exact ih h
  | case5 w l hu hn p hs hf =>
      rw [advance_pending rfl hu hn rfl hs hf]
      refine (launch_rest clock canceled w hu).keep fun hnil => hn ?_
      have hlength := pass_left_of_unfinished clock l.writer.encoder l.writer.active (by simpa using hf)
      rw [hnil] at hlength
      exact List.isEmpty_iff.2 (List.length_eq_zero_iff.1 hlength.symm)

end Writer

theorem Written.round_rest (clock : Clock) (gone : Nat → Bool) (w : Writer) (t : Tracker)
    (h : ∀ u, (round clock gone w t).standing ≠ .unwritten u) :
    (round clock gone w t).writer.IsAtRest :=
  Writer.advance_rest clock _ _ h

theorem Written.of_rest (clock : Clock) (gone : Nat → Bool) (w : Writer) (t : Tracker) :
    (Written.of clock gone w t).value.writer.IsAtRest := by
  induction w, t using Written.of_induction clock gone with
  | failed w t seq fault hs ih =>
      rw [Written.of_failed hs]
      exact ih _
  | canceled w t seq hs ih =>
      rw [Written.of_canceled hs]
      exact ih _
  | crashed w t text hs =>
      rw [Written.of_crashed hs]
      exact round_rest clock gone w t (by simp [hs])
  | written w t hs =>
      rw [Written.of_written hs]
      exact round_rest clock gone w t fun u hu => by simp [hu] at hs

end HttpSession
