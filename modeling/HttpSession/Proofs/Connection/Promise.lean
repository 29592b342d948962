import HttpSession.Promise

namespace HttpSession.Promise

variable {p q r : Promise} {id : Nat} {actions : List Action}

def hear (id : Nat) (p : Promise) : Action → Promise
  | .offer => p.settle (.handle id)
  | .refuse fault => p.settle (.failed fault)
  | _ => p

def IsSound (p : Promise) : Prop := p.outcome.isSome = (p.settled && p.waiting)

theorem new_isSound : new.IsSound := rfl

theorem settle_settled (p : Promise) (outcome : Establishment) : (p.settle outcome).settled = true := by
  unfold settle
  split
  · assumption
  · rfl

theorem settle_isSound (h : p.IsSound) (outcome : Establishment) : (p.settle outcome).IsSound := by
  unfold settle
  split
  · exact h
  · unfold IsSound
    cases p.waiting <;> rfl

theorem leave_isSound (p : Promise) : p.leave.IsSound := by
  simp [leave, IsSound]

structure Grows (p q : Promise) : Prop where
  final : p.settled = true → q = p
  waiting : q.waiting = p.waiting
  sound : p.IsSound → q.IsSound

namespace Grows

theorem refl (p : Promise) : Grows p p := ⟨fun _ => rfl, rfl, id⟩

theorem settled (h : Grows p q) (hp : p.settled = true) : q.settled = true := h.final hp ▸ hp

theorem trans (hq : Grows p q) (hr : Grows q r) : Grows p r where
  final hp := (hr.final (hq.settled hp)).trans (hq.final hp)
  waiting := hr.waiting.trans hq.waiting
  sound := hr.sound ∘ hq.sound

end Grows

theorem settle_grows (p : Promise) (outcome : Establishment) : Grows p (p.settle outcome) := by
  refine ⟨fun hp => ?_, ?_, fun h => settle_isSound h outcome⟩
  · simp [settle, hp]
  · unfold settle
    split <;> rfl

theorem hear_grows (id : Nat) (p : Promise) (a : Action) : Grows p (p.hear id a) := by
  unfold hear
  split
  · exact settle_grows p _
  · exact settle_grows p _
  · exact .refl p

theorem heard_grows (id : Nat) (p : Promise) (actions : List Action) :
    Grows p (actions.foldl (hear id) p) := by
  induction actions generalizing p with
  | nil => exact .refl p
  | cons a rest ih => exact (hear_grows id p a).trans (ih _)

theorem settled_of_mem {a : Action} (ha : a ∈ actions) (hs : ∀ p : Promise, (p.hear id a).settled = true)
    (p : Promise) : (actions.foldl (hear id) p).settled = true := by
  induction actions generalizing p with
  | nil => simp at ha
  | cons b rest ih =>
      rw [List.foldl_cons]
      rcases List.mem_cons.1 ha with rfl | ha
      · exact (heard_grows id _ rest).settled (hs p)
      · exact ih ha _

end HttpSession.Promise
