import HttpSession.Proofs.Tracker.Replies

/-! Where the requests go that a tracker no longer awaits. -/

namespace HttpSession.Tracker

variable {t : Tracker} {p : Pending} {marked : List Abandoned} {spared : List Nat} {r : Traced Tracker}

/-- Of the requests that leave, some are marked for the writer to stop and some are spared. Only
requests that leave are told of a failure. -/
structure Sheds (t : Tracker) (marked : List Abandoned) (spared : List Nat) (r : Traced Tracker) :
    Prop where
  abandoned : r.value.abandoned = t.abandoned ++ marked
  parted : (marked.map Abandoned.seq ++ (spared ++ r.value.seqs)).Perm t.seqs
  failed : ∀ sink fault, .answer sink (.failed fault) ∈ r.actions →
    ∃ p ∈ t.pending, p.sink = sink ∧ p.seq ∈ marked.map Abandoned.seq ++ spared

namespace Sheds

theorem ofSame (ha : r.value.abandoned = t.abandoned) (hs : r.value.seqs = t.seqs)
    (hn : ∀ sink fault, .answer sink (.failed fault) ∉ r.actions) : t.Sheds [] [] r :=
  ⟨by simp [ha], by simp [hs], fun sink fault h => absurd h (hn sink fault)⟩

theorem refl (t : Tracker) : t.Sheds [] [] (pure t) := .ofSame rfl rfl (by simp)

theorem append (hs : t.Sheds marked spared r) {more : List Action}
    (hn : ∀ sink fault, .answer sink (.failed fault) ∉ more) :
    t.Sheds marked spared ⟨r.value, r.actions ++ more⟩ :=
  ⟨hs.abandoned, hs.parted, fun sink fault h =>
    hs.failed sink fault ((List.mem_append.1 h).resolve_right (hn sink fault))⟩

variable (hs : t.Sheds marked spared r)

include hs

theorem nodup (ht : t.InOrder) :
    (marked.map Abandoned.seq ++ (spared ++ r.value.seqs)).Nodup :=
  hs.parted.nodup_iff.2 ht.nodup

theorem kept : t.abandoned ⊆ r.value.abandoned :=
  hs.abandoned ▸ List.subset_append_left _ _

theorem marked_mem {seq : Nat} (h : seq ∈ marked.map Abandoned.seq) : seq ∈ t.seqs :=
  hs.parted.subset (List.mem_append_left _ h)

theorem not_mem_of_shed (ht : t.InOrder) {seq : Nat} (h : seq ∈ marked.map Abandoned.seq ++ spared) :
    seq ∉ r.value.seqs := fun hin => by
  have hnodup := hs.nodup ht
  rw [← List.append_assoc] at hnodup
  exact (List.nodup_append.1 hnodup).2.2 _ h _ hin rfl

theorem count_unawaited {seq : Nat} (h : seq ∉ t.seqs) :
    (r.value.abandoned.map Abandoned.seq).count seq = (t.abandoned.map Abandoned.seq).count seq := by
  have hnone := List.count_eq_zero.2 fun hm => h (hs.marked_mem hm)
  rw [hs.abandoned, List.map_append, List.count_append, hnone, Nat.add_zero]

theorem count_marked (ht : t.InOrder) (seq : Nat) : (marked.map Abandoned.seq).count seq ≤ 1 :=
  List.nodup_iff_count_le_one.1 (List.nodup_append.1 (hs.nodup ht)).1 seq

end Sheds

theorem closeIfDrained_not_failed (t : Tracker) (sink : Nat) (fault : Fault) :
    .answer sink (.failed fault) ∉ t.closeIfDrained := by
  unfold closeIfDrained
  split <;> simp

theorem mem_fails {pending : List Pending} {fault other : Fault} {sink : Nat}
    (h : .answer sink (.failed other) ∈ pending.map (·.fail fault)) : ∃ p ∈ pending, p.sink = sink := by
  obtain ⟨p, hp, he⟩ := List.mem_map.1 h
  exact ⟨p, hp, (Action.answer.inj he).1⟩

theorem seqs_filter_perm (t : Tracker) (leaves : Pending → Bool) :
    ((t.pending.filter leaves).map Pending.seq
      ++ (t.pending.filter fun p => !leaves p).map Pending.seq).Perm t.seqs := by
  rw [← List.map_append]
  exact (List.filter_append_perm leaves t.pending).map _

theorem InOrder.settle_sheds (h : t.InOrder) (seq : Nat) (reply : Reply) :
    t.Sheds [] ((t.find? seq).toList.map Pending.seq) (t.settle seq reply) where
  abandoned := by simp [settle, erase]
  parted := by
    have hsplit := t.seqs_filter_perm (·.seq == seq)
    rwa [h.filter_seq] at hsplit
  failed sink fault hm := by
    have hm := (List.mem_append.1 hm).resolve_right (closeIfDrained_not_failed _ _ _)
    obtain ⟨p, hp, he⟩ := List.mem_map.1 hm
    refine ⟨p, (find?_eq_some (by simpa using hp)).1, (Action.answer.inj he).1, ?_⟩
    simpa using List.mem_map_of_mem (f := Pending.seq) hp

theorem afterAbandon_cases (t : Tracker) (given : List Nat) :
    (∃ reset, (t.afterAbandon given).value
          = { t with abandoned := t.abandoned ++ given.map (Abandoned.mk · reset) }
        ∧ ∀ sink fault, .answer sink (.failed fault) ∉ (t.afterAbandon given).actions)
      ∨ (t.afterAbandon given).value.pending = []
        ∧ (t.afterAbandon given).value.abandoned
          = t.abandoned ++ (given ++ t.seqs).map (Abandoned.mk · false)
        ∧ (t.afterAbandon given).actions
          = t.pending.map (·.fail Fault.closedSession) ++ [.call .close] := by
  unfold afterAbandon
  split
  · unfold desync
    split
    · exact .inl ⟨false, rfl, by simp⟩
    · exact .inr ⟨rfl, by simp [Tracker.seqs], rfl⟩
  · exact .inl ⟨true, rfl, closeIfDrained_not_failed _⟩

theorem giveUp_sheds (t : Tracker) (leaves : Pending → Bool) (fault : Fault) :
    ∃ marked, t.Sheds marked [] (do
      Traced.perform ((t.pending.filter leaves).map (·.fail fault))
      afterAbandon { t with pending := t.pending.filter fun p => !leaves p }
        ((t.pending.filter leaves).map Pending.seq)) := by
  have hsplit := t.seqs_filter_perm leaves
  have htold : ∀ {keep : Pending → Bool} {sink : Nat} {first other : Fault},
      .answer sink (.failed other) ∈ (t.pending.filter keep).map (·.fail first) →
      ∃ p ∈ t.pending, p.sink = sink ∧ p.seq ∈ (t.pending.filter keep).map Pending.seq := by
    intro keep sink first other hm
    obtain ⟨p, hp, hsink⟩ := mem_fails hm
    exact ⟨p, List.mem_of_mem_filter hp, hsink, List.mem_map_of_mem hp⟩
  rcases afterAbandon_cases { t with pending := t.pending.filter fun p => !leaves p }
      ((t.pending.filter leaves).map Pending.seq) with
    ⟨reset, hvalue, hquiet⟩ | ⟨hpending, habandoned, hactions⟩
  · refine ⟨((t.pending.filter leaves).map Pending.seq).map (Abandoned.mk · reset), ?_, ?_,
      fun sink other hm => ?_⟩
    · simp [hvalue]
    · simpa [hvalue, Tracker.seqs, Function.comp_def] using hsplit
    · have hm := (List.mem_append.1 hm).resolve_right (hquiet sink other)
      simpa [Function.comp_def] using htold hm
  · refine ⟨_, habandoned, ?_, fun sink other hm => ?_⟩
    · simpa [hpending, Tracker.seqs, Function.comp_def] using hsplit
    · rw [Traced.actions_bind, Traced.actions_perform, hactions] at hm
      have hm := (List.mem_append.1 hm).imp_right fun hm =>
        (List.mem_append.1 hm).resolve_right (by simp)
      rw [List.append_nil, List.map_map, Function.comp_def, List.map_id']
      rcases hm with hm | hm
      · obtain ⟨p, hp, hsink, hseq⟩ := htold hm
        exact ⟨p, hp, hsink, List.mem_append_left _ hseq⟩
      · obtain ⟨p, hp, hsink, hseq⟩ := htold hm
        exact ⟨p, hp, hsink, List.mem_append_right _ hseq⟩

theorem InOrder.abandon_sheds (h : t.InOrder) (seq : Nat) (fault : Fault) :
    ∃ marked, t.Sheds marked [] (t.abandon seq fault) := by
  have hgone := h.filter_seq seq
  unfold abandon
  split
  · exact ⟨[], .refl t⟩
  · rename_i p hp
    obtain ⟨-, rfl⟩ := find?_eq_some hp
    have hall := t.giveUp_sheds (·.seq == p.seq) fault
    rw [hgone, hp] at hall
    exact hall

theorem expire_sheds (t : Tracker) (now : Instant) :
    ∃ marked, t.Sheds marked [] (t.expire now) := by
  unfold expire
  dsimp only
  split
  · exact ⟨[], .refl t⟩
  · exact t.giveUp_sheds (·.isDue now) Fault.responseTimeout

theorem mem_find?_seqs {seq s : Nat} (h : s ∈ (t.find? seq).toList.map Pending.seq) : s = seq := by
  obtain ⟨p, hp, rfl⟩ := List.mem_map.1 h
  exact (find?_eq_some (by simpa using hp)).2

theorem InOrder.fail_sheds (h : t.InOrder) (seq : Nat) (fault : Fault) :
    ∃ marked spared, t.Sheds marked spared (t.fail seq fault) ∧ ∀ s ∈ spared, s = seq := by
  unfold fail
  split
  · obtain ⟨marked, hs⟩ := h.abandon_sheds seq fault
    exact ⟨marked, [], hs, by simp⟩
  · exact ⟨[], _, h.settle_sheds seq _, fun s hs => mem_find?_seqs hs⟩

theorem InOrder.forget_sheds (h : t.InOrder) (seq : Nat) :
    ∃ marked spared, t.Sheds marked spared (t.forget seq) ∧ ∀ s ∈ spared, s = seq :=
  ⟨[], _, h.settle_sheds seq _, fun _ hs => mem_find?_seqs hs⟩

theorem InOrder.stop_sheds (h : t.InOrder) (hp : p ∈ t.pending) (fault : Fault) :
    t.Sheds [⟨p.seq, false⟩] []
      (settle { t with abandoned := t.abandoned ++ [⟨p.seq, false⟩] } p.seq (.failed fault)) where
  abandoned := by simp [settle, erase]
  parted := by
    have hsplit := t.seqs_filter_perm (·.seq == p.seq)
    rwa [h.filter_seq, h.find?_eq hp] at hsplit
  failed sink other hm := by
    have hm := (List.mem_append.1 hm).resolve_right (closeIfDrained_not_failed _ _ _)
    obtain ⟨q, hq, he⟩ := List.mem_map.1 hm
    obtain ⟨hq, hseq⟩ := find?_eq_some (by simpa using hq : find? _ p.seq = some q)
    exact ⟨q, hq, (Action.answer.inj he).1, by simp [hseq]⟩

theorem InOrder.receive_sheds (h : t.InOrder) (stream : Option StreamId) (part : Part) :
    ∃ marked spared, t.Sheds marked spared
        ⟨(t.receive stream part).value.tracker, (t.receive stream part).actions⟩
      ∧ (spared = [] ∨ ∀ sink fault, .answer sink (.failed fault) ∉ (t.receive stream part).actions) := by
  obtain ⟨fault, he⟩ | ⟨p, hp, -, -, he⟩ := t.receive_cases stream part
  · rw [he]
    exact ⟨[], [], .refl t, .inl rfl⟩
  · rw [he]
    have hreception := t.receivePart_reception p part
    generalize t.receivePart p part = r at hreception ⊢
    cases hreception with
    | ignored | wrong => exact ⟨[], [], .refl t, .inl rfl⟩
    | added f same =>
        refine ⟨[], [], .ofSame rfl ?_ (by simp [accepted]), .inl rfl⟩
        simp only [accepted, Traced.value_pure, Tracker.seqs, update, List.map_map]
        refine List.map_congr_left fun q _ => ?_
        simp only [Function.comp_apply]
        split
        · exact (same q).1
        · rfl
    | tooLarge =>
        obtain ⟨marked, hs⟩ := h.abandon_sheds p.seq Fault.tooLarge
        exact ⟨marked, [], hs, .inl rfl⟩
    | complete head known =>
        refine ⟨[], _, h.settle_sheds p.seq _, .inr fun sink fault hm => ?_⟩
        have hm := (List.mem_append.1 hm).resolve_right (closeIfDrained_not_failed _ _ _)
        simp at hm
    | reset reason => exact ⟨_, _, h.stop_sheds hp _, .inl rfl⟩

end HttpSession.Tracker
