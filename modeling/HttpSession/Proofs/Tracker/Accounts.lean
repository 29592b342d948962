import HttpSession.Proofs.Tracker.Reception

namespace HttpSession

/-- What the caller of a request is owed: a reply, and word whether the request was taken. -/
inductive Debt where
  | reply (sink : Nat)
  | word (sink : Nat)
  deriving DecidableEq, Repr

def Action.pays? : Action → Option Debt
  | .answer sink _ => some (.reply sink)
  | .accept sink _ => some (.word sink)
  | _ => none

/-- Every debt is paid by one of the actions, or is left over. -/
def Accounts (owed : List Debt) (actions : List Action) (left : List Debt) : Prop :=
  (actions.filterMap Action.pays? ++ left).Perm owed

namespace Accounts

variable {owed rest left : List Debt} {xs ys : List Action}

theorem of_unpaid (h : xs.filterMap Action.pays? = []) : Accounts owed xs owed := by
  rw [Accounts, h, List.nil_append]

theorem refl : Accounts owed [] owed := of_unpaid rfl

theorem of_paid (h : xs.filterMap Action.pays? = owed) : Accounts owed xs [] := by
  rw [Accounts, h, List.append_nil]

theorem trans (hx : Accounts owed xs rest) (hy : Accounts rest ys left) :
    Accounts owed (xs ++ ys) left := by
  rw [Accounts, List.filterMap_append, List.append_assoc]
  exact (hy.append_left _).trans hx

theorem append_unpaid (hx : Accounts owed xs left) (h : ys.filterMap Action.pays? = []) :
    Accounts owed (xs ++ ys) left :=
  hx.trans (of_unpaid h)

theorem accept (sink : Nat) (accepted : Bool) :
    Accounts (.word sink :: left) [.accept sink accepted] left :=
  List.Perm.refl _

theorem perm_owed {others : List Debt} (hx : Accounts owed xs left) (h : owed.Perm others) :
    Accounts others xs left :=
  List.Perm.trans hx h

theorem beside (hx : Accounts owed xs left) (others : List Debt) :
    Accounts (others ++ owed) xs (others ++ left) := by
  refine List.Perm.trans ?_ (hx.append_left others)
  rw [← List.append_assoc, ← List.append_assoc]
  exact List.perm_append_comm.append_right left

end Accounts

namespace Tracker

variable {t : Tracker} {p : Pending}

def debts (t : Tracker) : List Debt := t.pending.map fun p => .reply p.sink

def Settles (t : Tracker) (r : Traced Tracker) : Prop :=
  Accounts t.debts r.actions r.value.debts

theorem closeIfDrained_unpaid (t : Tracker) : t.closeIfDrained.filterMap Action.pays? = [] := by
  unfold closeIfDrained
  split <;> rfl

theorem fails_paid (pending : List Pending) (fault : Fault) :
    (pending.map (·.fail fault)).filterMap Action.pays? = pending.map fun p => .reply p.sink := by
  induction pending with
  | nil => rfl
  | cons p rest ih => exact congrArg (Debt.reply p.sink :: ·) ih

theorem failAll_settles (t : Tracker) (fault : Fault) : t.Settles (t.failAll fault) :=
  .of_paid (fails_paid _ _)

theorem InOrder.erase_accounts (h : t.InOrder) (seq : Nat) (reply : Reply) :
    Accounts t.debts ((t.find? seq).toList.map fun p => .answer p.sink reply)
      (t.erase seq).debts := by
  have hsplit := (List.filter_append_perm (fun p : Pending => p.seq == seq) t.pending).map
    fun p => Debt.reply p.sink
  rw [List.map_append, h.filter_seq] at hsplit
  cases hf : t.find? seq with
  | none => simpa [Accounts, hf, debts, erase, bne] using hsplit
  | some p => simpa [Accounts, hf, debts, erase, bne, Action.pays?] using hsplit

theorem InOrder.settle_settles (h : t.InOrder) (seq : Nat) (reply : Reply) :
    t.Settles (t.settle seq reply) :=
  (h.erase_accounts seq reply).append_unpaid (closeIfDrained_unpaid _)

theorem desync_settles (t : Tracker) : t.Settles t.desync := by
  unfold desync
  split
  · exact .refl
  · exact (Accounts.of_paid (fails_paid _ _)).append_unpaid rfl

theorem afterAbandon_settles (t : Tracker) (seqs : List Nat) : t.Settles (t.afterAbandon seqs) := by
  unfold afterAbandon
  split
  · exact desync_settles { t with abandoned := t.abandoned ++ seqs.map (Abandoned.mk · false) }
  · exact .of_unpaid (closeIfDrained_unpaid t)

theorem InOrder.abandon_settles (h : t.InOrder) (seq : Nat) (fault : Fault) :
    t.Settles (t.abandon seq fault) := by
  have herase := h.erase_accounts seq (.failed fault)
  unfold abandon
  split
  · exact .refl
  · rename_i p hf
    rw [hf] at herase
    exact herase.trans (afterAbandon_settles _ _)

theorem InOrder.fail_settles (h : t.InOrder) (seq : Nat) (fault : Fault) :
    t.Settles (t.fail seq fault) := by
  unfold fail
  split
  · exact h.abandon_settles seq fault
  · exact h.settle_settles seq _

theorem closeAfterDrain_settles (t : Tracker) : t.Settles t.closeAfterDrain :=
  .of_unpaid (closeIfDrained_unpaid _)

theorem expire_settles (t : Tracker) (now : Instant) : t.Settles (t.expire now) := by
  unfold expire
  dsimp only
  split
  · exact .refl
  · have hdue : Accounts t.debts
        ((t.pending.filter (·.isDue now)).map (·.fail Fault.responseTimeout))
        ((t.pending.filter fun p => !p.isDue now).map fun p => .reply p.sink) := by
      rw [Accounts, fails_paid, ← List.map_append]
      exact (List.filter_append_perm _ _).map _
    exact hdue.trans (afterAbandon_settles
      { t with pending := t.pending.filter fun p => !p.isDue now } _)

theorem register_debts {seq : Nat} (h : ∀ s ∈ t.seqs, s < seq) (sink maxLength : Nat)
    (deadline : Option Instant) :
    (t.register seq sink maxLength deadline).debts = t.debts ++ [.reply sink] := by
  simp [debts, register_pending h]

theorem update_debts (t : Tracker) (seq : Nat) (f : Pending → Pending)
    (hf : ∀ p, (f p).sink = p.sink) : (t.update seq f).debts = t.debts := by
  simp only [debts, update, List.map_map]
  refine List.map_congr_left fun p _ => ?_
  simp only [Function.comp_apply]
  split
  · exact congrArg Debt.reply (hf p)
  · rfl

theorem InOrder.receivePart_settles (h : t.InOrder) (p : Pending) (part : Part) :
    Accounts t.debts (t.receivePart p part).actions (t.receivePart p part).value.tracker.debts := by
  have hreception := t.receivePart_reception p part
  generalize t.receivePart p part = r at hreception ⊢
  cases hreception with
  | ignored | wrong => exact .refl
  | added f same =>
      have hsame := update_debts t p.seq f fun q => (same q).2
      simpa [accepted, hsame] using Accounts.refl
  | tooLarge => exact h.abandon_settles _ _
  | complete => exact h.settle_settles _ _
  | reset =>
      exact InOrder.settle_settles (t := { t with abandoned := t.abandoned ++ [⟨p.seq, false⟩] }) h _ _

theorem InOrder.receive_settles (h : t.InOrder) (stream : Option StreamId) (part : Part) :
    Accounts t.debts (t.receive stream part).actions (t.receive stream part).value.tracker.debts := by
  obtain ⟨fault, he⟩ | ⟨p, -, -, -, he⟩ := t.receive_cases stream part
  · rw [he]
    exact .refl
  · rw [he]
    exact h.receivePart_settles p part

end Tracker

end HttpSession
