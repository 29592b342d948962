import HttpSession.Proofs.Tracker.Reception

namespace HttpSession

namespace Action

def isIdle : Action → Bool
  | .call .close | .call (.connect _ _ _) | .offer | .refuse _ => true
  | _ => false

def isQuiet : Action → Bool
  | .answer _ (.failed _) => true
  | a => a.isIdle

theorem isQuiet_of_isIdle {a : Action} (h : a.isIdle = true) : a.isQuiet = true := by
  cases a with
  | answer => simp [isIdle] at h
  | _ => exact h

end Action

namespace Tracker

variable {t : Tracker} {p : Pending}

@[simp] theorem closeIfDrained_quiet (t : Tracker) : ∀ a ∈ t.closeIfDrained, a.isQuiet = true := by
  unfold closeIfDrained
  split <;> simp [Action.isQuiet, Action.isIdle]

theorem fails_quiet (pending : List Pending) (fault : Fault) :
    ∀ a ∈ pending.map (·.fail fault), a.isQuiet = true := by
  intro a ha
  obtain ⟨p, -, rfl⟩ := List.mem_map.1 ha
  rfl

theorem settle_failed_quiet (t : Tracker) (seq : Nat) (fault : Fault) :
    ∀ a ∈ (t.settle seq (.failed fault)).actions, a.isQuiet = true := by
  intro a ha
  rcases List.mem_append.1 ha with ha | ha
  · obtain ⟨p, -, rfl⟩ := List.mem_map.1 ha
    rfl
  · exact closeIfDrained_quiet _ a ha

theorem desync_quiet (t : Tracker) : ∀ a ∈ t.desync.actions, a.isQuiet = true := by
  unfold desync
  split
  · simp
  · intro a ha
    rcases List.mem_append.1 ha with ha | ha
    · exact fails_quiet _ _ a ha
    · obtain rfl := List.mem_singleton.1 ha
      rfl

theorem afterAbandon_quiet (t : Tracker) (seqs : List Nat) :
    ∀ a ∈ (t.afterAbandon seqs).actions, a.isQuiet = true := by
  unfold afterAbandon
  split
  · exact desync_quiet _
  · exact closeIfDrained_quiet _

theorem abandon_quiet (t : Tracker) (seq : Nat) (fault : Fault) :
    ∀ a ∈ (t.abandon seq fault).actions, a.isQuiet = true := by
  unfold abandon
  split
  · simp
  · intro a ha
    rcases List.mem_append.1 ha with ha | ha
    · obtain rfl := List.mem_singleton.1 ha
      rfl
    · exact afterAbandon_quiet _ _ a ha

theorem fail_quiet (t : Tracker) (seq : Nat) (fault : Fault) :
    ∀ a ∈ (t.fail seq fault).actions, a.isQuiet = true := by
  unfold fail
  split
  · exact abandon_quiet t seq fault
  · exact settle_failed_quiet t seq fault

theorem forget_quiet (t : Tracker) (seq : Nat) : ∀ a ∈ (t.forget seq).actions, a.isQuiet = true :=
  settle_failed_quiet t seq _

theorem closeAfterDrain_quiet (t : Tracker) :
    ∀ a ∈ t.closeAfterDrain.actions, a.isQuiet = true :=
  closeIfDrained_quiet _

theorem failAll_quiet (t : Tracker) (fault : Fault) :
    ∀ a ∈ (t.failAll fault).actions, a.isQuiet = true :=
  fails_quiet _ _

theorem expire_quiet (t : Tracker) (now : Instant) :
    ∀ a ∈ (t.expire now).actions, a.isQuiet = true := by
  unfold expire
  dsimp only
  split
  · simp
  · intro a ha
    rcases List.mem_append.1 ha with ha | ha
    · exact fails_quiet _ _ a ha
    · exact afterAbandon_quiet _ _ a ha

def takes (t : Tracker) (stream : Option StreamId) (part : Part) : Option Nat :=
  if t.desynced then none
  else
    match t.route stream with
    | .to seq => if (t.receive stream part).value.fault.isNone then some seq else none
    | _ => none

theorem takes_eq_some {stream : Option StreamId} {part : Part} {seq : Nat}
    (h : t.takes stream part = some seq) :
    t.desynced = false ∧ t.route stream = .to seq
      ∧ (t.receive stream part).value.fault = none := by
  unfold takes at h
  split at h
  · simp at h
  · rename_i hsync
    split at h
    · rename_i s hs
      split at h
      · rename_i hfault
        obtain rfl := Option.some.inj h
        exact ⟨by simpa using hsync, hs, by simpa using hfault⟩
      · simp at h
    · simp at h

theorem takes_mem {stream : Option StreamId} {part : Part} {seq : Nat}
    (h : t.takes stream part = some seq) : seq ∈ t.seqs := by
  obtain ⟨-, hroute, -⟩ := takes_eq_some h
  unfold route at hroute
  split at hroute
  · split at hroute
    · simp at hroute
    · rename_i p rest hp
      obtain rfl := Route.to.inj hroute
      simp [seqs, hp]
  · split at hroute
    · simp at hroute
    · split at hroute
      · simp at hroute
      · split at hroute
        · obtain rfl := Route.to.inj hroute
          exact find?_isSome.1 ‹_›
        · simp at hroute

theorem receivePart_replies (t : Tracker) (p : Pending) (part : Part) :
    ∀ a ∈ (t.receivePart p part).actions, a.isQuiet = true
      ∨ part = .finish ∧ ∃ q ∈ t.pending, ∃ head, q.seq = p.seq ∧ p.head = some head
        ∧ (t.receivePart p part).value.tracker = t.erase p.seq
        ∧ (t.receivePart p part).value.fault = none
        ∧ a = .answer q.sink (.complete ⟨head, p.body.toOctets, p.trailers⟩) := by
  intro a ha
  have hreception := t.receivePart_reception p part
  generalize t.receivePart p part = r at hreception ha ⊢
  cases hreception with
  | ignored | wrong | added => simp [accepted, rejected] at ha
  | tooLarge => exact .inl (abandon_quiet _ _ _ a ha)
  | complete head known =>
      rcases List.mem_append.1 ha with ha | ha
      · obtain ⟨q, hq, rfl⟩ := List.mem_map.1 ha
        obtain ⟨hq, hseq⟩ := find?_eq_some (Option.mem_toList.1 hq)
        exact .inr ⟨rfl, q, hq, head, hseq, known, rfl, rfl, rfl⟩
      · exact .inl (closeIfDrained_quiet _ a ha)
  | reset reason => exact .inl (settle_failed_quiet _ _ _ a ha)

theorem receive_replies (ht : t.InOrder) (stream : Option StreamId) (part : Part) :
    ∀ a ∈ (t.receive stream part).actions, a.isQuiet = true
      ∨ part = .finish ∧ ∃ p ∈ t.pending, ∃ head, t.takes stream part = some p.seq
        ∧ p.head = some head ∧ (t.receive stream part).value.tracker = t.erase p.seq
        ∧ a = .answer p.sink (.complete ⟨head, p.body.toOctets, p.trailers⟩) := by
  intro a ha
  obtain ⟨fault, he⟩ | ⟨p, hp, hsync, hroute, he⟩ := t.receive_cases stream part
  · simp [he] at ha
  · rw [he] at ha ⊢
    rcases receivePart_replies t p part a ha with
      hq | ⟨rfl, q, hq, head, hseq, hhead, hrest, hfault, rfl⟩
    · exact .inl hq
    · obtain rfl := ht.seq_inj hq hp hseq
      refine .inr ⟨rfl, q, hq, head, ?_, hhead, hrest, rfl⟩
      simp [takes, hsync, hroute, he, hfault]

end Tracker

end HttpSession
