import HttpSession.Proofs.Streams.Dismissal
import Mathlib.Data.List.Perm.Subperm

namespace HttpSession

inductive Use where
  | register (seq sink maxLength : Nat) (deadline : Option Instant)
  | receive (stream : Option StreamId) (part : Part)
  | fail (seq : Nat) (fault : Fault)
  | forget (seq : Nat)
  | expire (now : Instant)
  | drain
  | handOver
  deriving DecidableEq, Repr

inductive Notice where
  | part (p : Part)
  | stopped (fault : Fault)
  | late
  deriving DecidableEq, Repr

namespace Use

def enrolled? : Use → Option (Nat × Nat)
  | .register seq sink _ _ => some (seq, sink)
  | _ => none

def notice? (seq : Nat) (deadline : Option Instant) : Use → Option Notice
  | .receive stream part => if stream = some (streamOf seq) then some (.part part) else none
  | .fail s fault => if s = seq then some (.stopped fault) else none
  | .forget s => if s = seq then some (.stopped Fault.canceled) else none
  | .expire now => if deadline.any (· ≤ now) then some .late else none
  | .register _ _ _ _ | .drain | .handOver => none

def enrolled (uses : List Use) : List (Nat × Nat) := uses.filterMap enrolled?

def Distinct (uses : List Use) : Prop :=
  ((enrolled uses).map Prod.fst).Nodup ∧ ((enrolled uses).map Prod.snd).Nodup

instance (uses : List Use) : Decidable (Distinct uses) :=
  inferInstanceAs (Decidable (_ ∧ _))

variable {uses others : List Use} {u : Use} {p : Nat × Nat}

theorem enrolled_append (uses others : List Use) :
    enrolled (uses ++ others) = enrolled uses ++ enrolled others :=
  List.filterMap_append

theorem Distinct.left (hd : Distinct (uses ++ others)) : Distinct uses := by
  rw [Distinct, enrolled_append, List.map_append, List.map_append] at hd
  exact ⟨(List.nodup_append.1 hd.1).1, (List.nodup_append.1 hd.2).1⟩

theorem Distinct.fresh (hd : Distinct (uses ++ u :: others)) (hu : u.enrolled? = some p) :
    p.1 ∉ (enrolled uses).map Prod.fst ∧ p.2 ∉ (enrolled uses).map Prod.snd := by
  have hmem : p ∈ enrolled (u :: others) := by simp [enrolled, hu]
  rw [Distinct, enrolled_append, List.map_append, List.map_append] at hd
  constructor
  · intro h
    exact (List.nodup_append.1 hd.1).2.2 _ h _ (List.mem_map_of_mem hmem) rfl
  · intro h
    exact (List.nodup_append.1 hd.2).2.2 _ h _ (List.mem_map_of_mem hmem) rfl

end Use

namespace Tracker

variable {t : Tracker} {p : Pending} {roll : List (Nat × Nat)}

def use (t : Tracker) : Use → Traced Received
  | .register seq sink maxLength deadline => accepted (pure (t.register seq sink maxLength deadline))
  | .receive stream part => t.receive stream part
  | .fail seq fault => accepted (t.fail seq fault)
  | .forget seq => accepted (t.forget seq)
  | .expire now => accepted (t.expire now)
  | .drain => accepted t.closeAfterDrain
  | .handOver => accepted (pure { t with abandoned := [] })

/-- All that an operation may do to a tracker of streams. Only requests that get to know of it are
changed or dismissed. -/
inductive Effect (t : Tracker) : Use → Traced Received → Prop
  | kept {u : Use} (fault : Option Fault) : Effect t u ⟨⟨t, fault⟩, []⟩
  | noted {u : Use} {p : Pending} (hp : p ∈ t.pending) (told : (u.notice? p.seq p.deadline).isSome)
      (f : Pending → Pending) (same : ∀ q, (f q).seq = q.seq ∧ (f q).sink = q.sink) :
      Effect t u (accepted (pure (t.update p.seq f)))
  | dismissed {u : Use} {leaves : Pending → Bool} {reply : Reply} {reset : Option Bool}
      {r : Traced Tracker} (hd : t.Dismisses leaves reply reset r)
      (told : ∀ p ∈ t.pending, leaves p = true → (u.notice? p.seq p.deadline).isSome) :
      Effect t u (accepted r)
  | enrolled (seq sink maxLength : Nat) (deadline : Option Instant) :
      Effect t (.register seq sink maxLength deadline)
        (accepted (pure (t.register seq sink maxLength deadline)))
  | drained : Effect t .drain (accepted t.closeAfterDrain)
  | handed : Effect t .handOver (accepted (pure { t with abandoned := [] }))

theorem Effect.ofReception (h : t.InOrder) (hb : t.binding = .byStream) (hp : p ∈ t.pending)
    {u : Use} {part : Part} {r : Traced Received} (hr : t.Reception p part r)
    (told : (u.notice? p.seq p.deadline).isSome) : t.Effect u r := by
  have hself : ∀ q ∈ t.pending, (q.seq == p.seq) = true → (u.notice? q.seq q.deadline).isSome := by
    intro q hq he
    rw [h.seq_inj hq hp (by simpa using he)]
    exact told
  cases hr with
  | ignored => exact .kept none
  | wrong text => exact .kept _
  | added f same => exact .noted hp told f same
  | tooLarge => exact .dismissed (h.abandon_dismisses hb _ _) hself
  | complete head known => exact .dismissed (h.settle_dismisses _ _) hself
  | reset reason => exact .dismissed (h.stop_dismisses hp _) hself

theorem route_byStream (hb : t.binding = .byStream) {stream : Option StreamId} {s : Nat}
    (hr : t.route stream = .to s) : ∃ id, stream = some id ∧ seqOf? id = some s := by
  simp only [route, hb] at hr
  split at hr
  · simp at hr
  · rename_i id
    split at hr
    · simp at hr
    · rename_i s' hs
      split at hr
      · obtain rfl := Route.to.inj hr
        exact ⟨id, rfl, hs⟩
      · simp at hr

theorem use_effect (h : t.InOrder) (hb : t.binding = .byStream) (u : Use) : t.Effect u (t.use u) := by
  have hnamed : ∀ s, ∀ p ∈ t.pending, (p.seq == s) = true → s = p.seq :=
    fun s p _ he => (eq_of_beq he).symm
  cases u with
  | register seq sink maxLength deadline => exact .enrolled seq sink maxLength deadline
  | receive stream part =>
      obtain ⟨fault, he⟩ | ⟨p, hp, -, hroute, he⟩ := t.receive_cases stream part
      · rw [use, he]
        exact .kept fault
      · obtain ⟨id, rfl, hid⟩ := route_byStream hb hroute
        rw [use, he]
        exact .ofReception h hb hp (t.receivePart_reception p part)
          (by simp [Use.notice?, eq_streamOf_of_seqOf? hid])
  | fail s fault =>
      exact .dismissed (h.fail_dismisses hb s fault) fun p hp he => by
        simp [Use.notice?, hnamed s p hp he]
  | forget s =>
      exact .dismissed (h.settle_dismisses s _) fun p hp he => by
        simp [Use.notice?, hnamed s p hp he]
  | expire now =>
      refine .dismissed (expire_dismisses hb now) fun p hp he => ?_
      cases hd : p.deadline with
      | none => simp [Pending.isDue, hd] at he
      | some deadline => simpa [Use.notice?, Pending.isDue, hd] using he
  | drain => exact .drained
  | handOver => exact .handed

theorem Effect.rejected {u : Use} {r : Traced Received} (ht : t.Effect u r) (hf : r.value.fault.isSome) :
    r = ⟨⟨t, r.value.fault⟩, []⟩ := by
  cases ht with
  | kept fault => rfl
  | _ => simp [accepted] at hf

theorem drained_of_close (h : .call .close ∈ t.closeIfDrained) :
    t.draining = true ∧ t.pending = [] := by
  simpa [closeIfDrained, List.isEmpty_iff] using h

theorem Dismisses.drained {leaves : Pending → Bool} {reply : Reply} {reset : Option Bool}
    {r : Traced Tracker} (hd : t.Dismisses leaves reply reset r) (h : .call .close ∈ r.actions) :
    r.value.draining = true ∧ r.value.pending = [] := by
  obtain ⟨closing, hactions, hclosing⟩ := hd.actions
  rw [hactions, List.mem_append] at h
  rcases h with h | h
  · simp [dismiss] at h
  · rcases hclosing with rfl | rfl
    · simp at h
    · exact drained_of_close h

theorem Effect.drained_of_close {u : Use} {r : Traced Received} (ht : t.Effect u r)
    (h : .call .close ∈ r.actions) :
    r.value.tracker.draining = true ∧ r.value.tracker.pending = [] := by
  cases ht with
  | dismissed hd told => exact hd.drained h
  | drained => exact Tracker.drained_of_close h
  | _ => simp [accepted] at h

def held (t : Tracker) : List Nat := t.abandoned.map Abandoned.seq ++ t.seqs

theorem Dismisses.held {leaves : Pending → Bool} {reply : Reply} {reset : Option Bool}
    {r : Traced Tracker} (hd : t.Dismisses leaves reply reset r) : r.value.held.Subperm t.held := by
  have hmarks : ∀ gone : List Pending,
      ((gone.flatMap fun p => (reset.map (Abandoned.mk p.seq)).toList).map Abandoned.seq).Sublist
        (gone.map Pending.seq) := by
    intro gone
    cases reset with
    | none =>
        have hnil : gone.flatMap (fun _ => ([] : List Abandoned)) = [] := by simp
        simp [hnil]
    | some b => simp [← List.map_eq_flatMap, Function.comp_def]
  have hsplit := (List.filter_append_perm leaves t.pending).map Pending.seq
  rw [List.map_append] at hsplit
  have hmoved := (hmarks (t.pending.filter leaves)).append_right
    ((t.pending.filter fun p => !leaves p).map Pending.seq)
  simp only [hd.value, Tracker.held, dismiss, seqs, List.map_append, List.append_assoc]
  exact (List.subperm_append_left _).2 (hmoved.subperm.trans hsplit.subperm)

theorem Effect.held {u : Use} {r : Traced Received} (he : t.Effect u r) (hu : u.enrolled? = none) :
    r.value.tracker.held.Subperm t.held := by
  cases he with
  | kept | drained => exact .refl _
  | @noted _ p hp told f same =>
      have hsame : (t.update p.seq f).seqs.Sublist t.seqs := (update_wanes t p.seq f same).seqs
      exact (hsame.append_left _).subperm
  | dismissed hd told => exact hd.held
  | enrolled => simp [Use.enrolled?] at hu
  | handed => exact (List.sublist_append_right _ t.seqs).subperm

theorem Effect.abandoned {u : Use} {r : Traced Received} (he : t.Effect u r) (hu : u ≠ .handOver) :
    t.abandoned ⊆ r.value.tracker.abandoned := by
  cases he with
  | kept | drained | noted | enrolled => exact List.Subset.refl _
  | dismissed hd told =>
      rw [accepted, hd.value]
      exact List.subset_append_left _ _
  | handed => exact absurd rfl hu

structure Multiplexes (roll : List (Nat × Nat)) (t : Tracker) : Prop where
  binding : t.binding = .byStream
  inOrder : t.InOrder
  synced : t.desynced = false
  awaited : t.awaited ⊆ roll

theorem Multiplexes.start : Multiplexes [] (new .byStream) := ⟨rfl, .nil, rfl, List.Subset.refl _⟩

theorem Multiplexes.use (hm : Multiplexes roll t) (u : Use)
    (hnew : ∀ p, u.enrolled? = some p → p.1 ∉ roll.map Prod.fst) :
    Multiplexes (roll ++ u.enrolled?.toList) (t.use u).value.tracker := by
  have hkeep : roll ⊆ roll ++ u.enrolled?.toList := List.subset_append_left _ _
  have heffect := use_effect hm.inOrder hm.binding u
  generalize t.use u = r at heffect ⊢
  cases heffect with
  | kept | handed | drained =>
      exact ⟨hm.binding, hm.inOrder, hm.synced, List.Subset.trans hm.awaited hkeep⟩
  | @noted _ p hp told f same =>
      have hw := update_wanes t p.seq f same
      exact ⟨hm.binding, hw.inOrder hm.inOrder, hm.synced,
        List.Subset.trans hw.awaited.subset (List.Subset.trans hm.awaited hkeep)⟩
  | dismissed hd told =>
      have hsub := t.awaited_filter_sublist
      rw [accepted, hd.value]
      refine ⟨hm.binding, ?_, hm.synced,
        List.Subset.trans (hsub _).subset (List.Subset.trans hm.awaited hkeep)⟩
      exact hm.inOrder.sublist (List.filter_sublist.map _)
  | enrolled seq sink maxLength deadline =>
      have hout : seq ∉ t.seqs := by
        intro hs
        rw [seqs_eq_awaited] at hs
        exact hnew (seq, sink) rfl (List.map_subset Prod.fst hm.awaited hs)
      refine ⟨hm.binding, hm.inOrder.register sink maxLength deadline hout, hm.synced, fun p hp => ?_⟩
      rcases List.mem_cons.1 ((t.awaited_register sink maxLength deadline seq).subset hp) with rfl | hp
      · simp [Use.enrolled?]
      · exact hkeep (hm.awaited hp)

end Tracker

end HttpSession
