import HttpSession.Proofs.Session.Run
import HttpSession.Proofs.Tracker.Accounts

namespace HttpSession

/-- All debts are paid by the actions or left over, and a close is asked for when none is left. -/
structure Clears (owed : List Debt) (actions : List Action) (left : List Debt) : Prop where
  settled : Accounts owed actions left
  paid : ∀ xs ys, actions = xs ++ .call .close :: ys → Accounts owed xs []

namespace Clears

variable {owed rest left others : List Debt} {xs ys : List Action}

theorem ofUnclosed (h : Accounts owed xs left) (hn : .call .close ∉ xs) : Clears owed xs left :=
  ⟨h, fun before _ he => absurd (he ▸ List.mem_append_right before List.mem_cons_self) hn⟩

theorem refl : Clears owed [] owed := .ofUnclosed .refl (by simp)

theorem ofNothing (h : Accounts [] xs left) : Clears [] xs left := by
  refine ⟨h, fun before behind he => ?_⟩
  have hnone : xs.filterMap Action.pays? = [] := (List.append_eq_nil_iff.1 (List.Perm.eq_nil h)).1
  rw [he, List.filterMap_append] at hnone
  exact .of_unpaid (List.append_eq_nil_iff.1 hnone).1

theorem trans (hx : Clears owed xs rest) (hy : Clears rest ys left) : Clears owed (xs ++ ys) left := by
  refine ⟨hx.settled.trans hy.settled, fun before behind he => ?_⟩
  rcases split_of_append_eq he with ⟨tail, hfirst, -⟩ | ⟨tail, rfl, hsecond⟩
  · exact hx.paid before tail hfirst
  · exact hx.settled.trans (hy.paid tail behind hsecond)

end Clears

namespace Tracker

variable {t u : Tracker} {p : Pending} {r : Traced Tracker}

def isSpent (t : Tracker) : Bool := t.desynced || t.draining && t.pending.isEmpty

theorem isSpent_of_desynced (h : t.desynced = true) : t.isSpent = true := by
  simp [isSpent, h]

inductive Drains (t : Tracker) : Traced Tracker → Prop
  | goesOn {u : Tracker} {actions : List Action} (unclosed : .call .close ∉ actions)
      (kept : u.isSpent = true → t.isSpent = true) : Drains t ⟨u, actions⟩
  | closes {u : Tracker} {actions : List Action} (unclosed : .call .close ∉ actions)
      (empty : u.pending = []) : Drains t ⟨u, actions ++ [.call .close]⟩

namespace Drains

theorem told (h : t.Drains r) (hs : r.value.isSpent = true) :
    t.isSpent = true ∨ .call .close ∈ r.actions := by
  cases h with
  | goesOn unclosed kept => exact .inl (kept hs)
  | closes unclosed empty => exact .inr (by simp)

theorem last (h : t.Drains r) {xs ys : List Action} (he : r.actions = xs ++ .call .close :: ys) :
    r.actions = xs ++ [.call .close] ∧ r.value.pending = [] := by
  cases h with
  | goesOn unclosed kept =>
      obtain rfl : _ = xs ++ .call .close :: ys := he
      exact absurd (by simp) unclosed
  | @closes u actions unclosed empty =>
      rcases split_of_append_eq he with ⟨tail, rfl, -⟩ | ⟨tail, rfl, hlast⟩
      · exact absurd (by simp) unclosed
      · cases tail with
        | nil => exact ⟨by simp, empty⟩
        | cons a tail => simp at hlast

theorem unclosed (h : t.Drains r) (hp : r.value.pending ≠ []) : .call .close ∉ r.actions := by
  intro hclose
  obtain ⟨xs, ys, he⟩ := List.append_of_mem hclose
  exact hp (h.last he).2

theorem clears (h : t.Drains r) (hs : t.Settles r) : Clears t.debts r.actions r.value.debts := by
  refine ⟨hs, fun xs ys he => ?_⟩
  obtain ⟨hlast, hempty⟩ := h.last he
  have hpaid : Accounts t.debts (xs ++ [.call .close]) [] := by
    have hnone : r.value.debts = [] := by simp [debts, hempty]
    rw [← hlast, ← hnone]
    exact hs
  rwa [Accounts, List.filterMap_append, show [Action.call .close].filterMap Action.pays? = [] from rfl,
    List.append_nil] at hpaid

theorem after {actions : List Action} (h : t.Drains r) (hn : .call .close ∉ actions) :
    t.Drains ⟨r.value, actions ++ r.actions⟩ := by
  cases h with
  | goesOn unclosed kept => exact .goesOn (by simp [hn, unclosed]) kept
  | closes unclosed empty =>
      dsimp only
      rw [← List.append_assoc]
      exact .closes (by simp [hn, unclosed]) empty

end Drains

theorem pure_drains (t : Tracker) : t.Drains (pure t) := .goesOn (by simp) id

theorem fails_unclosed (pending : List Pending) (fault : Fault) :
    .call .close ∉ pending.map (·.fail fault) := by
  simp [Pending.fail]

section

variable {actions : List Action} (unclosed : .call .close ∉ actions)
  (hd : u.desynced = true → t.desynced = true)

include unclosed hd

theorem closeIfDrained_drains : t.Drains ⟨u, actions ++ u.closeIfDrained⟩ := by
  unfold closeIfDrained
  split
  · rename_i h
    exact .closes unclosed (List.isEmpty_iff.1 (Bool.and_eq_true_iff.1 h).2)
  · rename_i h
    refine .goesOn (by simpa using unclosed) fun hs => ?_
    rw [isSpent, Bool.or_eq_true] at hs
    exact isSpent_of_desynced (hd (hs.resolve_right h))

theorem desync_drains : t.Drains ⟨u.desync.value, actions ++ u.desync.actions⟩ := by
  unfold desync
  split
  · exact .goesOn (by simpa using unclosed) fun _ => isSpent_of_desynced (hd ‹_›)
  · dsimp only
    rw [← List.append_assoc]
    exact .closes (by simp [unclosed, fails_unclosed]) rfl

theorem afterAbandon_drains (seqs : List Nat) :
    t.Drains ⟨(u.afterAbandon seqs).value, actions ++ (u.afterAbandon seqs).actions⟩ := by
  unfold afterAbandon
  split
  · exact desync_drains unclosed hd
  · exact closeIfDrained_drains (u := { u with abandoned := _ }) unclosed hd

end

theorem answers_unclosed (pending : List Pending) (reply : Reply) :
    .call .close ∉ pending.map fun p => Action.answer p.sink reply := by
  simp

theorem settle_drains (t : Tracker) (seq : Nat) (reply : Reply) : t.Drains (t.settle seq reply) :=
  closeIfDrained_drains (u := t.erase seq) (answers_unclosed _ reply) id

theorem abandon_drains (t : Tracker) (seq : Nat) (fault : Fault) : t.Drains (t.abandon seq fault) := by
  unfold abandon
  split
  · exact t.pure_drains
  · rename_i p _
    exact afterAbandon_drains (t := t) (u := t.erase seq) (fails_unclosed [p] fault) id [seq]

theorem fail_drains (t : Tracker) (seq : Nat) (fault : Fault) : t.Drains (t.fail seq fault) := by
  unfold fail
  split
  · exact t.abandon_drains seq fault
  · exact t.settle_drains seq _

theorem forget_drains (t : Tracker) (seq : Nat) : t.Drains (t.forget seq) :=
  t.settle_drains seq _

theorem expire_drains (t : Tracker) (now : Instant) : t.Drains (t.expire now) := by
  unfold expire
  dsimp only
  split
  · exact t.pure_drains
  · exact afterAbandon_drains (t := t) (u := { t with pending := t.pending.filter fun p => !p.isDue now })
      (fails_unclosed (t.pending.filter (·.isDue now)) Fault.responseTimeout) id _

theorem receivePart_drains (t : Tracker) (p : Pending) (part : Part) :
    t.Drains ⟨(t.receivePart p part).value.tracker, (t.receivePart p part).actions⟩ := by
  have hreception := t.receivePart_reception p part
  generalize t.receivePart p part = r at hreception ⊢
  cases hreception with
  | ignored | wrong => exact t.pure_drains
  | added f same =>
      exact .goesOn (by simp [accepted]) fun hs => by simpa [isSpent, update, accepted] using hs
  | tooLarge => exact t.abandon_drains _ _
  | complete => exact t.settle_drains _ _
  | reset =>
      exact closeIfDrained_drains (t := t) (u := erase { t with abandoned := _ } p.seq)
        (answers_unclosed _ _) id

theorem receive_drains (t : Tracker) (stream : Option StreamId) (part : Part) :
    t.Drains ⟨(t.receive stream part).value.tracker, (t.receive stream part).actions⟩ := by
  obtain ⟨fault, he⟩ | ⟨p, -, -, -, he⟩ := t.receive_cases stream part
  · rw [he]
    exact t.pure_drains
  · rw [he]
    exact t.receivePart_drains p part

theorem insertSorted_ne_nil (p : Pending) (pending : List Pending) : insertSorted p pending ≠ [] := by
  cases pending with
  | nil => simp [insertSorted]
  | cons q rest =>
      simp only [insertSorted]
      split <;> simp

theorem register_isSpent (t : Tracker) (seq sink maxLength : Nat) (deadline : Option Instant) :
    (t.register seq sink maxLength deadline).isSpent = t.desynced := by
  simp [isSpent, register, insertSorted_ne_nil]

end Tracker

end HttpSession
