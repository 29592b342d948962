import HttpSession.Connection.Log
import Mathlib.Data.List.Infix

namespace HttpSession

def Event.bare : Event → Event
  | .dispatch envelope =>
      .dispatch { envelope with request := { envelope.request with
        body := { envelope.request.body with frames := [], ended := false } } }
  | e => e

theorem Event.bare_feed (source : Nat) (frames : List Frame) (ended : Option Bool) (e : Event) :
    (e.feed source frames ended).bare = e.bare := by
  cases e with
  | dispatch envelope =>
      simp only [feed, bare, Envelope.feed, Body.feed]
      split <;> rfl
  | _ => rfl

theorem Event.bare_eq_closed {e : Event} : e.bare = .closed ↔ e = .closed := by
  cases e <;> simp [bare]

namespace Dealing

def posted? : Dealing → Option Event
  | .post e => some e.bare
  | _ => none

def taken? : Dealing → Option Event
  | .take e => some e.bare
  | _ => none

def posted (log : List Dealing) : List Event := log.filterMap posted?

def taken (log : List Dealing) : List Event := log.filterMap taken?

variable {xs ys : List Dealing} {e : Event} {es : List Event}

@[simp] theorem taken_nil : taken [] = [] := rfl

@[simp] theorem taken_take : taken (.take e :: xs) = e.bare :: taken xs := rfl

@[simp] theorem taken_rest : taken (.rest :: xs) = taken xs := rfl

@[simp] theorem taken_wake : taken (.wake :: xs) = taken xs := rfl

@[simp] theorem taken_poll : taken (.poll :: xs) = taken xs := rfl

@[simp] theorem taken_shut : taken (.shut :: xs) = taken xs := rfl

@[simp] theorem posted_nil : posted [] = [] := rfl

@[simp] theorem posted_poll : posted (.poll :: xs) = posted xs := rfl

@[simp] theorem posted_shut : posted (.shut :: xs) = posted xs := rfl

@[simp] theorem posted_append : posted (xs ++ ys) = posted xs ++ posted ys := List.filterMap_append

@[simp] theorem taken_append : taken (xs ++ ys) = taken xs ++ taken ys := List.filterMap_append

@[simp] theorem posted_posts : posted (es.map post) = es.map Event.bare := by
  induction es with
  | nil => rfl
  | cons e rest ih => exact congrArg (e.bare :: ·) ih

@[simp] theorem taken_posts : taken (es.map post) = [] := by
  induction es with
  | nil => rfl
  | cons e rest ih => exact ih

end Dealing

/-- The channel with the waker it holds, if any. Wakers are known by the number of their poll. -/
structure Mailbox where
  contents : List Event
  polls : Nat
  waiting : Option Nat
  woken : List Nat
  deriving DecidableEq, Repr

namespace Mailbox

def fresh : Mailbox := ⟨[], 0, none, []⟩

def polled (m : Mailbox) : Mailbox := { m with polls := m.polls + 1 }

def post (m : Mailbox) (es : List Event) : Mailbox :=
  { m with
    contents := m.contents ++ es
    waiting := if es.isEmpty then m.waiting else none
    woken := m.woken ++ if es.isEmpty then [] else m.waiting.toList }

@[simp] theorem post_polls (m : Mailbox) (es : List Event) : (m.post es).polls = m.polls := rfl

@[simp] theorem post_contents (m : Mailbox) (es : List Event) :
    (m.post es).contents = m.contents ++ es := rfl

theorem woken_subset_post (m : Mailbox) (es : List Event) : m.woken ⊆ (m.post es).woken :=
  List.subset_append_left _ _

/-- First come, first served. Who finds the channel empty leaves a waker behind, and whoever posts an
event wakes the waker that was left. -/
inductive Deal : Mailbox → Dealing → Mailbox → Prop
  | poll (m : Mailbox) : Deal m .poll m.polled
  | take {m : Mailbox} {e : Event} {rest : List Event} (first : m.contents = e.bare :: rest) :
      Deal m (.take e) { m with contents := rest }
  | rest {m : Mailbox} (empty : m.contents = []) : Deal m .rest { m with waiting := some m.polls }
  | post (m : Mailbox) (e : Event) : Deal m (.post e) (m.post [e.bare])
  | wake (m : Mailbox) : Deal m .wake { m with woken := m.woken ++ [m.polls] }
  | shut (m : Mailbox) : Deal m .shut { m with contents := [] }

inductive Dealt : Mailbox → List Dealing → Mailbox → Prop
  | nil (m : Mailbox) : Dealt m [] m
  | cons {m next last : Mailbox} {x : Dealing} {log : List Dealing} :
      Deal m x next → Dealt next log last → Dealt m (x :: log) last

variable {m next last : Mailbox} {x : Dealing} {xs ys log : List Dealing}

theorem Dealt.append (hx : Dealt m xs next) (hy : Dealt next ys last) : Dealt m (xs ++ ys) last := by
  induction hx with
  | nil => exact hy
  | cons hdeal _ ih => exact .cons hdeal (ih hy)

theorem post_dealt (m : Mailbox) (es : List Event) :
    Dealt m (es.map .post) (m.post (es.map Event.bare)) := by
  induction es generalizing m with
  | nil => simpa [post] using Dealt.nil m
  | cons e rest ih =>
      have hlast : (m.post [e.bare]).post (rest.map Event.bare) = m.post ((e :: rest).map Event.bare) := by
        cases rest <;> simp [post]
      exact hlast ▸ .cons (.post m e) (ih _)

theorem Dealt.conserves (h : Dealt m log next) (hshut : .shut ∉ log) :
    m.contents ++ Dealing.posted log = Dealing.taken log ++ next.contents := by
  induction h with
  | nil => simp [Dealing.posted, Dealing.taken]
  | cons hdeal _ ih =>
      rw [List.mem_cons, not_or] at hshut
      have hrest := ih hshut.2
      cases hdeal with
      | take first =>
          rw [first]
          exact congrArg (_ :: ·) hrest
      | post e => exact (List.append_cons ..).trans hrest
      | shut => exact absurd rfl hshut.1
      | poll | rest | wake => exact hrest

structure Sound (m : Mailbox) : Prop where
  waiting : ∀ k, m.waiting = some k → k ≤ m.polls
  woken : ∀ k ∈ m.woken, k ≤ m.polls

theorem Deal.sound (h : Deal m x next) (hm : m.Sound) : next.Sound := by
  obtain ⟨hwaiting, hwoken⟩ := hm
  cases h with
  | poll => exact ⟨fun k hk => Nat.le_succ_of_le (hwaiting k hk), fun k hk => Nat.le_succ_of_le (hwoken k hk)⟩
  | rest => exact ⟨fun k hk => Nat.le_of_eq (Option.some.inj hk).symm, hwoken⟩
  | post e =>
      refine ⟨by simp [Mailbox.post], fun k hk => ?_⟩
      rcases List.mem_append.1 hk with hk | hk
      · exact hwoken k hk
      · exact hwaiting k (by simpa using hk)
  | wake =>
      refine ⟨hwaiting, fun k hk => ?_⟩
      rcases List.mem_append.1 hk with hk | hk
      · exact hwoken k hk
      · exact Nat.le_of_eq (List.mem_singleton.1 hk)
  | take | shut => exact ⟨hwaiting, hwoken⟩

theorem Dealt.sound (h : Dealt m log next) (hm : m.Sound) : next.Sound := by
  induction h with
  | nil => exact hm
  | cons hdeal _ ih => exact ih (hdeal.sound hm)

structure Unused (m : Mailbox) : Prop where
  waiting : m.waiting ≠ some m.polls
  woken : m.polls ∉ m.woken

theorem Sound.unused (h : m.Sound) : m.polled.Unused where
  waiting hk := Nat.not_succ_le_self _ (h.waiting _ hk)
  woken hk := Nat.not_succ_le_self _ (h.woken _ hk)

theorem Unused.post (h : m.Unused) (es : List Event) : (m.post es).Unused := by
  constructor
  · simp only [Mailbox.post]
    split
    · exact h.waiting
    · simp
  · intro hk
    rcases List.mem_append.1 hk with hk | hk
    · exact h.woken hk
    · split at hk
      · simp at hk
      · exact h.waiting (by simpa using hk)

/-- The task has been woken since its last poll began, or whoever posts the next event wakes it. -/
def Alert (m : Mailbox) : Prop :=
  m.polls ∈ m.woken ∨ m.contents = [] ∧ m.waiting = some m.polls

theorem Alert.post (h : m.Alert) (es : List Event) : (m.post es).Alert := by
  rcases h with h | ⟨hempty, hwaiting⟩
  · exact .inl (m.woken_subset_post es h)
  · cases es with
    | nil => exact .inr ⟨by simpa [Mailbox.post] using hempty, hwaiting⟩
    | cons e rest => exact .inl (by simp [Mailbox.post, hwaiting])

theorem mem_woken_post (hw : m.waiting = some m.polls) (hu : m.polls ∉ m.woken) (es : List Event) :
    (m.post es).polls ∈ (m.post es).woken ↔ es ≠ [] := by
  cases es with
  | nil => simpa [Mailbox.post] using hu
  | cons e rest => simp [Mailbox.post, hw]

end Mailbox

end HttpSession
