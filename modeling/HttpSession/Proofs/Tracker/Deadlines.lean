import HttpSession.Proofs.Tracker.Replies

namespace HttpSession

def Fault.isOverdue (f : Fault) : Bool := f.kind == .responseTimeout || f.kind == .writeTimeout

namespace Action

def isAnswer : Action → Bool
  | .answer _ _ => true
  | _ => false

def overdue? : Action → Option (Nat × Fault)
  | .answer sink (.failed fault) => if fault.isOverdue then some (sink, fault) else none
  | _ => none

end Action

def overdue (actions : List Action) : List (Nat × Fault) := actions.filterMap Action.overdue?

section

variable {xs ys actions : List Action} {sink : Nat} {fault : Fault}

@[simp] theorem overdue_nil : overdue [] = [] := rfl

@[simp] theorem overdue_append : overdue (xs ++ ys) = overdue xs ++ overdue ys := List.filterMap_append

theorem mem_overdue (h : .answer sink (.failed fault) ∈ actions) (hf : fault.isOverdue = true) :
    (sink, fault) ∈ overdue actions :=
  List.mem_filterMap.2 ⟨_, h, by simp [Action.overdue?, hf]⟩

theorem overdue_of_idle (h : ∀ a ∈ actions, a.isIdle = true) : overdue actions = [] := by
  refine List.filterMap_eq_nil_iff.2 fun a ha => ?_
  cases a with
  | answer => exact absurd (h _ ha) (by simp [Action.isIdle])
  | _ => rfl

end

def Pending.term (p : Pending) : Nat × Nat × Option Instant := (p.seq, p.sink, p.deadline)

namespace Tracker

variable {t u : Tracker} {p : Pending} {now : Instant}

def terms (t : Tracker) : List (Nat × Nat × Option Instant) := t.pending.map Pending.term

theorem mem_terms (h : p ∈ t.pending) : p.term ∈ t.terms := List.mem_map_of_mem h

theorem terms_subset (h : u.pending ⊆ t.pending) : u.terms ⊆ t.terms := List.map_subset _ h

theorem afterAbandon_subset (t : Tracker) (seqs : List Nat) :
    (t.afterAbandon seqs).value.pending ⊆ t.pending := by
  rcases t.afterAbandon_pending seqs with h | h
  · exact h ▸ List.Subset.refl _
  · exact h ▸ List.nil_subset _

theorem erase_subset (t : Tracker) (seq : Nat) : (t.erase seq).pending ⊆ t.pending :=
  List.filter_sublist.subset

theorem abandon_subset (t : Tracker) (seq : Nat) (fault : Fault) :
    (t.abandon seq fault).value.pending ⊆ t.pending := by
  unfold abandon
  split
  · exact List.Subset.refl _
  · exact List.Subset.trans ((t.erase seq).afterAbandon_subset [seq]) (t.erase_subset seq)

theorem fail_subset (t : Tracker) (seq : Nat) (fault : Fault) :
    (t.fail seq fault).value.pending ⊆ t.pending := by
  unfold fail
  split
  · exact t.abandon_subset seq fault
  · exact t.erase_subset seq

theorem expire_subset (t : Tracker) (now : Instant) : (t.expire now).value.pending ⊆ t.pending := by
  unfold expire
  dsimp only
  split
  · exact List.Subset.refl _
  · exact List.Subset.trans (afterAbandon_subset _ _) List.filter_sublist.subset

theorem update_terms (t : Tracker) (seq : Nat) {f : Pending → Pending} (h : ∀ p, (f p).term = p.term) :
    (t.update seq f).terms = t.terms := by
  simp only [terms, update, List.map_map]
  refine List.map_congr_left fun p _ => ?_
  simp only [Function.comp_apply]
  split
  · exact h p
  · rfl

theorem receive_terms (t : Tracker) (stream : Option StreamId) (part : Part) :
    (t.receive stream part).value.tracker.terms ⊆ t.terms := by
  obtain ⟨fault, he⟩ | ⟨p, -, -, -, he⟩ := t.receive_cases stream part
  · rw [he]
    exact List.Subset.refl _
  · rw [he]
    have hreception := t.receivePart_reception p part
    generalize t.receivePart p part = r at hreception ⊢
    cases hreception with
    | ignored | wrong => exact List.Subset.refl _
    | added f same due =>
        have hterm (q : Pending) : (f q).term = q.term := by
          rw [Pending.term, (same q).1, (same q).2, due, Pending.term]
        exact (t.update_terms p.seq hterm).symm ▸ List.Subset.refl _
    | tooLarge => exact terms_subset (t.abandon_subset _ _)
    | complete | reset => exact terms_subset (t.erase_subset _)

theorem register_terms (t : Tracker) (seq sink maxLength : Nat) (deadline : Option Instant) :
    (t.register seq sink maxLength deadline).terms ⊆ (seq, sink, deadline) :: t.terms := by
  intro x hx
  obtain ⟨q, hq, rfl⟩ := List.mem_map.1 hx
  rcases List.mem_cons.1 ((insertSorted_perm _ _).subset hq) with rfl | hq
  · exact List.mem_cons_self
  · exact List.mem_cons_of_mem _ (mem_terms hq)

theorem overdue_fails (pending : List Pending) (fault : Fault) :
    overdue (pending.map (·.fail fault))
      = if fault.isOverdue then pending.map fun p => (p.sink, fault) else [] := by
  cases hf : fault.isOverdue with
  | true =>
      rw [if_pos rfl, overdue, List.filterMap_map, ← List.filterMap_eq_map]
      exact congrArg (List.filterMap · pending) (funext fun p => by simp [Pending.fail, Action.overdue?, hf])
  | false => simp [overdue, List.filterMap_map, Function.comp_def, Pending.fail, Action.overdue?, hf]

theorem overdue_closeIfDrained (t : Tracker) : overdue t.closeIfDrained = [] := by
  unfold closeIfDrained
  split <;> rfl

theorem overdue_desync (t : Tracker) : overdue t.desync.actions = [] := by
  unfold desync
  split
  · rfl
  · rw [overdue_append, overdue_fails]
    rfl

theorem overdue_afterAbandon (t : Tracker) (seqs : List Nat) :
    overdue (t.afterAbandon seqs).actions = [] := by
  unfold afterAbandon
  split
  · exact overdue_desync _
  · exact overdue_closeIfDrained _

def told (t : Tracker) (seq : Nat) (fault : Fault) : List (Nat × Fault) :=
  if fault.isOverdue then (t.find? seq).toList.map fun p => (p.sink, fault) else []

theorem overdue_settle (t : Tracker) (seq : Nat) (fault : Fault) :
    overdue (t.settle seq (.failed fault)).actions = t.told seq fault := by
  have hfails := overdue_fails (t.find? seq).toList fault
  rw [settle, overdue_append, overdue_closeIfDrained, List.append_nil]
  exact hfails

theorem overdue_abandon (t : Tracker) (seq : Nat) (fault : Fault) :
    overdue (t.abandon seq fault).actions = t.told seq fault := by
  unfold abandon told
  split
  · rename_i hnone
    simp [hnone]
  · rename_i p hsome
    have hfail := overdue_fails [p] fault
    simp only [Traced.actions_bind, Traced.actions_perform, overdue_append, overdue_afterAbandon,
      List.append_nil, hsome]
    exact hfail

theorem overdue_fail (t : Tracker) (seq : Nat) (fault : Fault) :
    overdue (t.fail seq fault).actions = t.told seq fault := by
  unfold fail
  split
  · exact t.overdue_abandon seq fault
  · exact t.overdue_settle seq fault

theorem told_of_timely (t : Tracker) (seq : Nat) {fault : Fault} (h : fault.isOverdue = false) :
    t.told seq fault = [] := by
  simp [told, h]

theorem mem_told {seq sink : Nat} {first fault : Fault} (h : (sink, fault) ∈ t.told seq first) :
    fault = first ∧ ∃ p ∈ t.pending, p.seq = seq ∧ p.sink = sink := by
  unfold told at h
  split at h
  · obtain ⟨p, hp, he⟩ := List.mem_map.1 h
    obtain ⟨rfl, rfl⟩ := Prod.mk.inj he
    obtain ⟨hp, hseq⟩ := find?_eq_some (Option.mem_toList.1 hp)
    exact ⟨rfl, p, hp, hseq, rfl⟩
  · simp at h

theorem overdue_receive (t : Tracker) (stream : Option StreamId) (part : Part) :
    overdue (t.receive stream part).actions = [] := by
  obtain ⟨fault, he⟩ | ⟨p, -, -, -, he⟩ := t.receive_cases stream part
  · rw [he]
    rfl
  · rw [he]
    have hreception := t.receivePart_reception p part
    generalize t.receivePart p part = r at hreception ⊢
    cases hreception with
    | ignored | wrong | added => rfl
    | tooLarge => exact t.overdue_abandon _ _
    | complete head known =>
        have hanswers : overdue ((t.find? p.seq).toList.map fun q =>
            Action.answer q.sink (.complete ⟨head, p.body.toOctets, p.trailers⟩)) = [] := by
          simp [overdue, List.filterMap_map, Function.comp_def, Action.overdue?]
        rw [accepted, settle, overdue_append, hanswers, overdue_closeIfDrained]
        rfl
    | reset reason => exact overdue_settle _ _ _

theorem undue_of_nextDeadline (h : ∀ next, t.nextDeadline = some next → now < next) :
    ∀ p ∈ t.pending, p.isDue now = false := by
  intro p hp
  cases hd : p.deadline with
  | none => simp [Pending.isDue, hd]
  | some due =>
      have hmem : due ∈ t.pending.filterMap (·.deadline) := List.mem_filterMap.2 ⟨p, hp, hd⟩
      cases hnext : t.nextDeadline with
      | none => simp [List.min?_eq_none_iff.1 hnext] at hmem
      | some next =>
          have hle : next ≤ due := (List.min?_eq_some_iff.1 hnext).2 due hmem
          have hlt : now < due := Nat.lt_of_lt_of_le (h next hnext) hle
          simpa [Pending.isDue, hd] using hlt

theorem expire_of_undue (h : ∀ p ∈ t.pending, p.isDue now = false) : t.expire now = ⟨t, []⟩ := by
  have hnone : t.pending.filter (·.isDue now) = [] := List.filter_eq_nil_iff.2 fun p hp => by simp [h p hp]
  simp [expire, hnone]

theorem expire_undue (t : Tracker) (now : Instant) :
    ∀ p ∈ (t.expire now).value.pending, p.isDue now = false := by
  unfold expire
  dsimp only
  split
  · rename_i hnone
    intro p hp
    simpa using List.filter_eq_nil_iff.1 (List.isEmpty_iff.1 hnone) p hp
  · intro p hp
    simpa using (List.mem_filter.1 (afterAbandon_subset _ _ hp)).2

theorem overdue_expire (t : Tracker) (now : Instant) :
    overdue (t.expire now).actions
      = (t.pending.filter (·.isDue now)).map fun p => (p.sink, Fault.responseTimeout) := by
  unfold expire
  dsimp only
  split
  · rename_i hnone
    rw [List.isEmpty_iff.1 hnone]
    rfl
  · simp only [Traced.actions_bind, Traced.actions_perform, overdue_append, overdue_afterAbandon,
      List.append_nil]
    exact overdue_fails _ _

theorem answers_fails (pending : List Pending) (fault : Fault) :
    (pending.map (·.fail fault)).filter Action.isAnswer = pending.map (·.fail fault) := by
  refine List.filter_eq_self.2 fun a ha => ?_
  obtain ⟨p, -, rfl⟩ := List.mem_map.1 ha
  rfl

theorem answers_closeIfDrained (t : Tracker) : t.closeIfDrained.filter Action.isAnswer = [] := by
  unfold closeIfDrained
  split <;> rfl

theorem expire_answers (synced : t.desynced = true → t.pending = []) (now : Instant) :
    (t.expire now).actions.filter Action.isAnswer
      = (t.pending.filter (·.isDue now)).map (·.fail Fault.responseTimeout)
        ++ if t.binding = .ordered ∧ t.pending.filter (·.isDue now) ≠ [] then
            (t.pending.filter fun p => !p.isDue now).map (·.fail Fault.closedSession)
          else [] := by
  unfold expire
  dsimp only
  split
  · rename_i hnone
    simp [List.isEmpty_iff.1 hnone]
  · rename_i hsome
    have hdue : t.pending.filter (·.isDue now) ≠ [] := fun h => hsome (List.isEmpty_iff.2 h)
    have hsync : t.desynced = false := by
      rw [Bool.eq_false_iff]
      intro h
      simp [synced h] at hdue
    simp only [Traced.actions_bind, Traced.actions_perform, List.filter_append, answers_fails]
    refine congrArg (_ ++ ·) ?_
    cases hb : t.binding with
    | ordered =>
        rw [if_pos ⟨rfl, hdue⟩]
        simp only [afterAbandon, desync, hsync, Bool.false_eq_true, if_false, List.filter_append,
          answers_fails]
        exact List.append_nil _
    | byStream =>
        rw [if_neg (by simp)]
        simp only [afterAbandon]
        exact answers_closeIfDrained _

end Tracker

end HttpSession
