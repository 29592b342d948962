import HttpSession.Proofs.Session.Advance

namespace HttpSession

open Happening (ofActions)

/-- A server that answers requests in the order in which it got their heads: the requests it has yet
to answer, what it has said so far to the first of them, and the responses it completed. -/
structure Peer where
  waiting : List Nat
  draft : Option Response
  answered : List (Nat × Response)
  deriving DecidableEq, Repr

namespace Peer

def start : Peer := ⟨[], none, []⟩

def say (p : Peer) (part : Part) : Option Peer :=
  match p.waiting, p.draft, part with
  | _ :: _, none, .head h =>
      some (if h.isInterim then p else { p with draft := some ⟨h, [], none⟩ })
  | _ :: _, some ⟨h, body, none⟩, .data octets => some { p with draft := some ⟨h, body ++ octets, none⟩ }
  | _ :: _, some ⟨h, body, none⟩, .trailers fields => some { p with draft := some ⟨h, body, some fields⟩ }
  | seq :: rest, some r, .finish => some ⟨rest, none, p.answered ++ [(seq, r)]⟩
  | _, _, _ => none

def hear (p : Peer) : Happening → Option Peer
  | .input (.response _ part) => p.say part
  | .action (.encode seq (.headers _ _) true) => some { p with waiting := p.waiting ++ [seq] }
  | _ => some p

def follow (p : Peer) (h : List Happening) : Option Peer := h.foldlM hear p

variable {p q : Peer} {h x : List Happening}

@[simp] theorem follow_nil (p : Peer) : p.follow [] = some p := rfl

theorem follow_cons (p : Peer) (y : Happening) (h : List Happening) :
    p.follow (y :: h) = (p.hear y).bind (·.follow h) := rfl

theorem follow_append (p : Peer) (h x : List Happening) :
    p.follow (h ++ x) = (p.follow h).bind (·.follow x) := List.foldlM_append

theorem exists_of_follow_append (hq : p.follow (h ++ x) = some q) :
    ∃ r, p.follow h = some r ∧ r.follow x = some q := by
  rw [follow_append] at hq
  exact Option.bind_eq_some_iff.1 hq

theorem hear_silent {y : Happening} (hy : ∀ stream part, y ≠ .input (.response stream part))
    (p : Peer) : p.hear y = some { p with waiting := p.waiting ++ (Happening.launched? y).toList } := by
  unfold hear
  split
  · exact absurd rfl (hy _ _)
  · rfl
  · rename_i hn
    have hl : Happening.launched? y = none := by
      unfold Happening.launched?
      split
      · exact absurd rfl (hn _ _ _)
      · rfl
    simp [hl]

theorem follow_silent (hx : ∀ stream part, .input (.response stream part) ∉ x) (p : Peer) :
    p.follow x = some { p with waiting := p.waiting ++ launched x } := by
  induction x generalizing p with
  | nil => simp
  | cons y rest ih =>
      simp only [List.mem_cons, not_or] at hx
      rw [follow_cons, hear_silent fun stream part => Ne.symm (hx stream part).1]
      simp only [Option.bind_some]
      rw [ih fun stream part => (hx stream part).2]
      cases hl : Happening.launched? y <;> simp [launched, hl]

theorem follow_ofActions {actions : List Action} (hl : launched (ofActions actions) = []) (p : Peer) :
    p.follow (ofActions actions) = some p := by
  rw [follow_silent (by simp), hl, List.append_nil]

theorem say_answered {part : Part} (hq : p.say part = some q) : p.answered ⊆ q.answered := by
  unfold say at hq
  split at hq
  · obtain rfl := Option.some.inj hq
    split <;> exact List.Subset.refl _
  · obtain rfl := Option.some.inj hq
    exact List.Subset.refl _
  · obtain rfl := Option.some.inj hq
    exact List.Subset.refl _
  · obtain rfl := Option.some.inj hq
    exact List.subset_append_left _ _
  · simp at hq

theorem hear_answered {y : Happening} (hq : p.hear y = some q) : p.answered ⊆ q.answered := by
  unfold hear at hq
  split at hq
  · exact say_answered hq
  · obtain rfl := Option.some.inj hq
    exact List.Subset.refl _
  · obtain rfl := Option.some.inj hq
    exact List.Subset.refl _

theorem follow_answered (hq : p.follow h = some q) : p.answered ⊆ q.answered := by
  induction h generalizing p with
  | nil => exact Option.some.inj hq ▸ List.Subset.refl _
  | cons y rest ih =>
      rw [follow_cons] at hq
      obtain ⟨r, hr, hrest⟩ := Option.bind_eq_some_iff.1 hq
      exact List.Subset.trans (hear_answered hr) (ih hrest)

theorem hear_quiet {y : Happening} (hy : ∀ a, y = .action a → a.isQuiet = true)
    (hw : p.waiting = []) (hq : p.hear y = some q) : q = p := by
  unfold hear at hq
  split at hq
  · simp [say, hw] at hq
  · simpa [Action.isQuiet, Action.isIdle] using hy _ rfl
  · exact (Option.some.inj hq).symm

theorem follow_quiet (hh : Quiet h) (hw : p.waiting = []) (hq : p.follow h = some q) : q = p := by
  induction h generalizing p with
  | nil => exact (Option.some.inj hq).symm
  | cons y rest ih =>
      rw [follow_cons] at hq
      obtain ⟨r, hr, hrest⟩ := Option.bind_eq_some_iff.1 hq
      obtain rfl := hear_quiet (fun a ha => hh a (ha ▸ List.mem_cons_self)) hw hr
      exact ih (fun a ha => hh a (List.mem_cons_of_mem y ha)) hw hrest

end Peer

end HttpSession
