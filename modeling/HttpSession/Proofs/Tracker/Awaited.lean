import HttpSession.Tracker
import Mathlib.Data.List.Nodup

namespace HttpSession.Tracker

variable {t u v : Tracker} {p q : Pending} {seq : Nat}

def seqs (t : Tracker) : List Nat := t.pending.map Pending.seq

def awaited (t : Tracker) : List (Nat × Nat) := t.pending.map fun p => (p.seq, p.sink)

def InOrder (t : Tracker) : Prop := t.seqs.Pairwise (· < ·)

theorem seqs_eq_awaited (t : Tracker) : t.seqs = t.awaited.map Prod.fst := by
  simp [seqs, awaited, Function.comp_def]

theorem mem_seqs (h : p ∈ t.pending) : p.seq ∈ t.seqs := List.mem_map_of_mem h

theorem mem_awaited (h : p ∈ t.pending) : (p.seq, p.sink) ∈ t.awaited :=
  List.mem_map_of_mem (f := fun p : Pending => (p.seq, p.sink)) h

theorem InOrder.nodup (h : t.InOrder) : t.seqs.Nodup := h.imp Nat.ne_of_lt

theorem InOrder.seq_inj (h : t.InOrder) (hp : p ∈ t.pending) (hq : q ∈ t.pending)
    (he : p.seq = q.seq) : p = q :=
  List.inj_on_of_nodup_map h.nodup hp hq he

theorem find?_eq_some (h : t.find? seq = some p) : p ∈ t.pending ∧ p.seq = seq :=
  ⟨List.mem_of_find?_eq_some h, by simpa using List.find?_some h⟩

theorem find?_eq_none : t.find? seq = none ↔ seq ∉ t.seqs := by
  simp [find?, seqs]

theorem find?_isSome : (t.find? seq).isSome ↔ seq ∈ t.seqs := by
  simp [find?, seqs]

theorem mem_seqs_of_wanted {gone : Nat → Bool} (h : t.isCanceled gone seq = false) : seq ∈ t.seqs := by
  unfold isCanceled at h
  split at h
  · rename_i p hp
    exact find?_isSome.1 (hp ▸ rfl)
  · simp at h

theorem InOrder.find?_eq (h : t.InOrder) (hp : p ∈ t.pending) : t.find? p.seq = some p := by
  obtain ⟨q, hq⟩ := Option.isSome_iff_exists.1 (find?_isSome.2 (mem_seqs hp))
  obtain ⟨hmem, hseq⟩ := find?_eq_some hq
  rw [hq, h.seq_inj hmem hp hseq]

theorem InOrder.filter_seq (h : t.InOrder) (seq : Nat) :
    t.pending.filter (·.seq == seq) = (t.find? seq).toList := by
  cases hf : t.find? seq with
  | none =>
      rw [find?_eq_none] at hf
      simp only [Option.toList_none, List.filter_eq_nil_iff, beq_iff_eq]
      exact fun p hp he => hf (he ▸ mem_seqs hp)
  | some p =>
      obtain ⟨hp, rfl⟩ := find?_eq_some hf
      have hall : ∀ q ∈ t.pending.filter (·.seq == p.seq), q = p := by
        intro q hq
        obtain ⟨hq, he⟩ := List.mem_filter.1 hq
        exact h.seq_inj hq hp (by simpa using he)
      have hnodup : (t.pending.filter (·.seq == p.seq)).Nodup :=
        (List.Nodup.of_map _ h.nodup).filter _
      refine List.perm_singleton.1 ((List.perm_ext_iff_of_nodup hnodup (List.nodup_singleton p)).2 ?_)
      intro q
      rw [List.mem_singleton]
      refine ⟨hall q, ?_⟩
      rintro rfl
      exact List.mem_filter.2 ⟨hp, by simp⟩

theorem insertSorted_eq_append {rest : List Pending} (h : ∀ q ∈ rest, q.seq < p.seq) :
    insertSorted p rest = rest ++ [p] := by
  induction rest with
  | nil => rfl
  | cons q rest ih =>
      have hq : ¬ p.seq < q.seq := Nat.not_lt.2 (Nat.le_of_lt (h q List.mem_cons_self))
      rw [insertSorted, if_neg hq, ih fun r hr => h r (List.mem_cons_of_mem q hr), List.cons_append]

theorem register_pending (h : ∀ s ∈ t.seqs, s < seq) (sink maxLength : Nat)
    (deadline : Option Instant) :
    (t.register seq sink maxLength deadline).pending
      = t.pending ++ [⟨seq, sink, none, Gathered.empty, none, maxLength, deadline⟩] :=
  insertSorted_eq_append fun q hq => h q.seq (mem_seqs hq)

theorem insertSorted_perm (p : Pending) (rest : List Pending) :
    (insertSorted p rest).Perm (p :: rest) := by
  induction rest with
  | nil => exact .refl _
  | cons q rest ih =>
      unfold insertSorted
      split
      · exact .refl _
      · exact (ih.cons q).trans (.swap p q rest)

theorem insertSorted_pairwise {rest : List Pending} (hne : ∀ q ∈ rest, q.seq ≠ p.seq)
    (h : (rest.map Pending.seq).Pairwise (· < ·)) :
    ((insertSorted p rest).map Pending.seq).Pairwise (· < ·) := by
  induction rest with
  | nil => exact List.pairwise_singleton _ _
  | cons q rest ih =>
      obtain ⟨hq, hrest⟩ := List.pairwise_cons.1 h
      unfold insertSorted
      split
      · rename_i hlt
        refine List.pairwise_cons.2 ⟨fun s hs => ?_, h⟩
        rcases List.mem_cons.1 hs with rfl | hs
        · exact hlt
        · exact Nat.lt_trans hlt (hq s hs)
      · rename_i hge
        have hlt : q.seq < p.seq := Nat.lt_of_le_of_ne (Nat.not_lt.1 hge) (hne q List.mem_cons_self)
        refine List.pairwise_cons.2 ⟨fun s hs => ?_,
          ih (fun r hr => hne r (List.mem_cons_of_mem q hr)) hrest⟩
        obtain ⟨r, hr, rfl⟩ := List.mem_map.1 hs
        rcases List.mem_cons.1 ((insertSorted_perm p rest).subset hr) with rfl | hr
        · exact hlt
        · exact hq r.seq (List.mem_map_of_mem hr)

theorem insertSorted_find? {rest : List Pending} (h : p.seq ≠ seq) :
    (insertSorted p rest).find? (·.seq == seq) = rest.find? (·.seq == seq) := by
  induction rest with
  | nil => simp [insertSorted, h]
  | cons q rest ih =>
      unfold insertSorted
      split
      · simp [h]
      · simp only [List.find?_cons, ih]

section

variable (sink maxLength : Nat) (deadline : Option Instant)

theorem awaited_register (t : Tracker) (seq : Nat) :
    (t.register seq sink maxLength deadline).awaited.Perm ((seq, sink) :: t.awaited) :=
  (insertSorted_perm _ t.pending).map _

theorem InOrder.register (h : t.InOrder) (hnew : seq ∉ t.seqs) :
    (t.register seq sink maxLength deadline).InOrder := by
  refine insertSorted_pairwise (fun q hq he => hnew ?_) h
  dsimp only at he
  exact he ▸ mem_seqs hq

theorem register_find?_of_ne {s : Nat} (hne : s ≠ seq) :
    (t.register seq sink maxLength deadline).find? s = t.find? s :=
  insertSorted_find? hne.symm

theorem InOrder.register_find? (h : t.InOrder) (hnew : seq ∉ t.seqs) :
    (t.register seq sink maxLength deadline).find? seq
      = some ⟨seq, sink, none, Gathered.empty, none, maxLength, deadline⟩ :=
  (h.register sink maxLength deadline hnew).find?_eq
    ((insertSorted_perm _ t.pending).symm.subset List.mem_cons_self)

end

structure Wanes (t u : Tracker) : Prop where
  awaited : u.awaited.Sublist t.awaited
  abandoned : ∀ a ∈ u.abandoned, a ∈ t.abandoned ∨ a.seq ∈ t.seqs ∧ a.seq ∉ u.seqs
  desynced : u.desynced = true → t.desynced = true ∨ u.pending = []
  lasting : t.desynced = true → u.desynced = true
  binding : u.binding = t.binding
  draining : u.draining = t.draining

namespace Wanes

theorem refl (t : Tracker) : t.Wanes t :=
  ⟨.refl _, fun _ h => .inl h, .inl, id, rfl, rfl⟩

theorem seqs (h : t.Wanes u) : u.seqs.Sublist t.seqs := by
  rw [seqs_eq_awaited, seqs_eq_awaited]
  exact h.awaited.map _

theorem inOrder (h : t.Wanes u) (ht : t.InOrder) : u.InOrder := ht.sublist h.seqs

theorem pending_nil (h : t.Wanes u) (ht : t.pending = []) : u.pending = [] := by
  simpa [Tracker.awaited, ht] using h.awaited

theorem trans (h : t.Wanes u) (h' : u.Wanes v) : t.Wanes v where
  awaited := h'.awaited.trans h.awaited
  abandoned a ha := by
    rcases h'.abandoned a ha with ha | ⟨hu, hv⟩
    · rcases h.abandoned a ha with ha | ⟨ht, hu⟩
      · exact .inl ha
      · exact .inr ⟨ht, fun hv => hu (h'.seqs.subset hv)⟩
    · exact .inr ⟨h.seqs.subset hu, hv⟩
  desynced hv := by
    rcases h'.desynced hv with hu | hnil
    · exact (h.desynced hu).imp id h'.pending_nil
    · exact .inr hnil
  lasting ht := h'.lasting (h.lasting ht)
  binding := h'.binding.trans h.binding
  draining := h'.draining.trans h.draining

end Wanes

theorem update_wanes (t : Tracker) (seq : Nat) (f : Pending → Pending)
    (hf : ∀ p, (f p).seq = p.seq ∧ (f p).sink = p.sink) : t.Wanes (t.update seq f) := by
  have hkeys : (t.update seq f).awaited = t.awaited := by
    simp only [awaited, update, List.map_map]
    refine List.map_congr_left fun p _ => ?_
    simp only [Function.comp_apply]
    split
    · rw [(hf p).1, (hf p).2]
    · rfl
  exact ⟨hkeys ▸ .refl _, fun _ h => .inl h, .inl, id, rfl, rfl⟩

theorem awaited_filter_sublist (t : Tracker) (keep : Pending → Bool) :
    awaited { t with pending := t.pending.filter keep } |>.Sublist t.awaited :=
  List.filter_sublist.map _

theorem erase_wanes (t : Tracker) (seq : Nat) : t.Wanes (t.erase seq) :=
  ⟨awaited_filter_sublist t _, fun _ h => .inl h, .inl, id, rfl, rfl⟩

theorem desync_wanes (t : Tracker) : t.Wanes t.desync.value := by
  unfold desync
  split
  · exact .refl t
  · refine ⟨by simp [awaited], fun a ha => ?_, fun _ => .inr rfl, fun _ => rfl, rfl, rfl⟩
    rcases List.mem_append.1 ha with ha | ha
    · exact .inl ha
    · obtain ⟨p, hp, rfl⟩ := List.mem_map.1 ha
      exact .inr ⟨mem_seqs hp, by simp [Tracker.seqs]⟩

theorem afterAbandon_wanes (t : Tracker) (keep : Pending → Bool) {seqs : List Nat}
    (hin : ∀ s ∈ seqs, s ∈ t.seqs) (hout : ∀ p ∈ t.pending, keep p = true → p.seq ∉ seqs) :
    t.Wanes (afterAbandon { t with pending := t.pending.filter keep } seqs).value := by
  have hgiven : ∀ reset, t.Wanes { t with
      pending := t.pending.filter keep
      abandoned := t.abandoned ++ seqs.map fun s => Abandoned.mk s reset } := by
    intro reset
    refine ⟨awaited_filter_sublist t keep, fun a ha => ?_, .inl, id, rfl, rfl⟩
    rcases List.mem_append.1 ha with ha | ha
    · exact .inl ha
    · obtain ⟨s, hs, rfl⟩ := List.mem_map.1 ha
      refine .inr ⟨hin s hs, fun hmem => ?_⟩
      obtain ⟨p, hp, rfl⟩ := List.mem_map.1 hmem
      obtain ⟨hp, hkeep⟩ := List.mem_filter.1 hp
      exact hout p hp hkeep hs
  unfold afterAbandon
  split
  · exact (hgiven false).trans (desync_wanes _)
  · exact hgiven true

theorem abandon_wanes (t : Tracker) (seq : Nat) (fault : Fault) :
    t.Wanes (t.abandon seq fault).value := by
  unfold abandon
  split
  · exact .refl t
  · rename_i p hf
    obtain ⟨hp, rfl⟩ := find?_eq_some hf
    refine afterAbandon_wanes t _ ?_ ?_
    · simpa using mem_seqs hp
    · simp

theorem fail_wanes (t : Tracker) (seq : Nat) (fault : Fault) : t.Wanes (t.fail seq fault).value := by
  unfold fail
  split
  · exact abandon_wanes t seq fault
  · exact erase_wanes t seq

theorem forget_wanes (t : Tracker) (seq : Nat) : t.Wanes (t.forget seq).value :=
  erase_wanes t seq

theorem expire_wanes (ht : t.InOrder) (now : Instant) : t.Wanes (t.expire now).value := by
  unfold expire
  dsimp only
  split
  · exact .refl t
  · refine afterAbandon_wanes t _ (fun s hs => ?_) (fun p hp hkeep hs => ?_)
    · obtain ⟨p, hp, rfl⟩ := List.mem_map.1 hs
      exact mem_seqs (List.mem_filter.1 hp).1
    · obtain ⟨q, hq, he⟩ := List.mem_map.1 hs
      obtain ⟨hq, hdue⟩ := List.mem_filter.1 hq
      rw [ht.seq_inj hp hq he.symm, hdue] at hkeep
      simp at hkeep

theorem erase_seqs (t : Tracker) (seq : Nat) : seq ∉ (t.erase seq).seqs := by
  simp [seqs, erase]

theorem desync_pending (t : Tracker) :
    t.desync.value.pending = t.pending ∨ t.desync.value.pending = [] := by
  unfold desync
  split
  · exact .inl rfl
  · exact .inr rfl

theorem afterAbandon_pending (t : Tracker) (seqs : List Nat) :
    (t.afterAbandon seqs).value.pending = t.pending ∨ (t.afterAbandon seqs).value.pending = [] := by
  unfold afterAbandon
  split
  · exact desync_pending _
  · exact .inl rfl

theorem abandon_seqs (t : Tracker) (seq : Nat) (fault : Fault) :
    seq ∉ (t.abandon seq fault).value.seqs := by
  unfold abandon
  split
  · exact find?_eq_none.1 ‹_›
  · rcases afterAbandon_pending (t.erase seq) [seq] with he | he
    · simpa [seqs, he] using erase_seqs t seq
    · simp [seqs, he]

theorem fail_seqs (t : Tracker) (seq : Nat) (fault : Fault) : seq ∉ (t.fail seq fault).value.seqs := by
  unfold fail
  split
  · exact abandon_seqs t seq fault
  · exact erase_seqs t seq

theorem mem_forget_seqs {s : Nat} : s ∈ (t.forget seq).value.seqs ↔ s ∈ t.seqs ∧ s ≠ seq := by
  simp only [forget, settle, erase, seqs, List.mem_map, List.mem_filter, bne_iff_ne]
  constructor
  · rintro ⟨p, ⟨hp, hne⟩, rfl⟩
    exact ⟨⟨p, hp, rfl⟩, hne⟩
  · rintro ⟨⟨p, hp, rfl⟩, hne⟩
    exact ⟨p, ⟨hp, hne⟩, rfl⟩

theorem forget_seqs (t : Tracker) (seq : Nat) : seq ∉ (t.forget seq).value.seqs := erase_seqs t seq

end HttpSession.Tracker
