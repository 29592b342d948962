import HttpSession.Proofs.Tracker.Reception

/-! How requests leave a tracker of streams, and what one request sees of it. -/

namespace HttpSession

namespace Action

def replyTo? (sink : Nat) : Action → Option Reply
  | .answer caller reply => if caller = sink then some reply else none
  | _ => none

def replies (sink : Nat) (actions : List Action) : List Reply :=
  actions.filterMap (replyTo? sink)

@[simp] theorem replies_nil (sink : Nat) : replies sink [] = [] := rfl

@[simp] theorem replies_append (sink : Nat) (xs ys : List Action) :
    replies sink (xs ++ ys) = replies sink xs ++ replies sink ys :=
  List.filterMap_append

end Action

namespace Abandoned

def resetOf? (seq : Nat) (a : Abandoned) : Option Bool :=
  if a.seq = seq then some a.reset else none

def resets (seq : Nat) (given : List Abandoned) : List Bool :=
  given.filterMap (resetOf? seq)

@[simp] theorem resets_nil (seq : Nat) : resets seq [] = [] := rfl

@[simp] theorem resets_append (seq : Nat) (xs ys : List Abandoned) :
    resets seq (xs ++ ys) = resets seq xs ++ resets seq ys :=
  List.filterMap_append

end Abandoned

namespace Tracker

open HttpSession.Action (replies)
open Abandoned (resets)

variable {t : Tracker} {p : Pending} {seq sink : Nat} {leaves : Pending → Bool} {reply : Reply}
  {reset : Option Bool} {r : Traced Tracker}

def dismiss (t : Tracker) (leaves : Pending → Bool) (reply : Reply) (reset : Option Bool) :
    Traced Tracker :=
  let gone := t.pending.filter leaves
  ⟨{ t with
      pending := t.pending.filter fun p => !leaves p
      abandoned := t.abandoned ++ gone.flatMap fun p => (reset.map (Abandoned.mk p.seq)).toList },
    gone.map fun p => .answer p.sink reply⟩

structure Dismisses (t : Tracker) (leaves : Pending → Bool) (reply : Reply) (reset : Option Bool)
    (r : Traced Tracker) : Prop where
  value : r.value = (t.dismiss leaves reply reset).value
  actions : ∃ closing, r.actions = (t.dismiss leaves reply reset).actions ++ closing
    ∧ (closing = [] ∨ closing = r.value.closeIfDrained)

theorem Dismisses.ofNobody (h : t.pending.filter leaves = []) :
    t.Dismisses leaves reply reset ⟨t, []⟩ := by
  have hkeep : t.pending.filter (fun p => !leaves p) = t.pending := by
    simpa [List.filter_eq_nil_iff, List.filter_eq_self] using h
  exact ⟨by simp [dismiss, h, hkeep], [], by simp [dismiss, h], .inl rfl⟩

theorem Dismisses.ofAbandon (hb : t.binding = .byStream) {gone : List Pending} (fault : Fault)
    (hgone : t.pending.filter leaves = gone) :
    t.Dismisses leaves (.failed fault) (some true)
      (Traced.perform (gone.map (·.fail fault)) >>= fun _ =>
        afterAbandon { t with pending := t.pending.filter fun p => !leaves p }
          (gone.map Pending.seq)) := by
  refine ⟨?_, _, ?_, .inr rfl⟩
  · simp [afterAbandon, dismiss, hb, hgone, ← List.map_eq_flatMap]
  · simp [afterAbandon, dismiss, hb, hgone, Pending.fail]
    rfl

theorem InOrder.settle_dismisses (h : t.InOrder) (seq : Nat) (reply : Reply) :
    t.Dismisses (·.seq == seq) reply none (t.settle seq reply) := by
  refine ⟨by simp [settle, dismiss, erase, bne], _, ?_, .inr rfl⟩
  simp [settle, dismiss, h.filter_seq]

theorem InOrder.abandon_dismisses (h : t.InOrder) (hb : t.binding = .byStream) (seq : Nat)
    (fault : Fault) :
    t.Dismisses (·.seq == seq) (.failed fault) (some true) (t.abandon seq fault) := by
  have hgone := h.filter_seq seq
  unfold abandon
  split
  · rename_i hnone
    exact .ofNobody (by simpa [hnone] using hgone)
  · rename_i p hp
    obtain ⟨-, rfl⟩ := find?_eq_some hp
    rw [hp] at hgone
    exact .ofAbandon hb fault hgone

theorem InOrder.fail_dismisses (h : t.InOrder) (hb : t.binding = .byStream) (seq : Nat)
    (fault : Fault) : t.Dismisses (·.seq == seq) (.failed fault) none (t.fail seq fault) := by
  simp only [fail, hb]
  exact h.settle_dismisses seq _

theorem expire_dismisses (hb : t.binding = .byStream) (now : Instant) :
    t.Dismisses (·.isDue now) (.failed Fault.responseTimeout) (some true) (t.expire now) := by
  unfold expire
  dsimp only
  split
  · rename_i hnone
    exact .ofNobody (List.isEmpty_iff.1 hnone)
  · exact .ofAbandon hb _ rfl

theorem InOrder.stop_dismisses (h : t.InOrder) (hp : p ∈ t.pending) (fault : Fault) :
    t.Dismisses (·.seq == p.seq) (.failed fault) (some false)
      (settle { t with abandoned := t.abandoned ++ [⟨p.seq, false⟩] } p.seq (.failed fault)) := by
  have hgone := h.filter_seq p.seq
  rw [h.find?_eq hp] at hgone
  have hfind : find? { t with abandoned := t.abandoned ++ [⟨p.seq, false⟩] } p.seq = some p :=
    h.find?_eq hp
  refine ⟨?_, _, ?_, .inr rfl⟩
  · simp [settle, dismiss, erase, bne, hgone]
  · simp [settle, dismiss, hfind, hgone]

theorem closeIfDrained_replies (t : Tracker) (sink : Nat) : replies sink t.closeIfDrained = [] := by
  unfold closeIfDrained
  split <;> rfl

theorem replies_dismissed (gone : List Pending) (sink : Nat) (reply : Reply) :
    replies sink (gone.map fun p => .answer p.sink reply)
      = (gone.filter (·.sink == sink)).map fun _ => reply := by
  induction gone with
  | nil => rfl
  | cons p rest ih =>
      have hcons : replies sink (.answer p.sink reply :: rest.map fun p => .answer p.sink reply)
          = (if p.sink = sink then [reply] else [])
            ++ replies sink (rest.map fun p => .answer p.sink reply) := by
        simp only [replies, List.filterMap_cons, Action.replyTo?]
        split <;> simp_all
      rw [List.map_cons, hcons, ih, List.filter_cons]
      by_cases h : p.sink = sink <;> simp [h]

theorem resets_dismissed (gone : List Pending) (seq : Nat) (reset : Option Bool) :
    resets seq (gone.flatMap fun p => (reset.map (Abandoned.mk p.seq)).toList)
      = (gone.filter (·.seq == seq)).flatMap fun _ => reset.toList := by
  induction gone with
  | nil => rfl
  | cons p rest ih =>
      rw [List.flatMap_cons, Abandoned.resets_append, ih, List.filter_cons]
      by_cases h : p.seq = seq <;> cases reset <;> simp [h, resets, Abandoned.resetOf?]

structure Shows (t : Tracker) (seq sink : Nat) (r : Traced Tracker) (entry : Option Pending)
    (replied : List Reply) (given : List Bool) : Prop where
  entry : r.value.find? seq = entry
  replied : replies sink r.actions = replied
  given : resets seq r.value.abandoned = resets seq t.abandoned ++ given

def Own (t : Tracker) (seq sink : Nat) : Prop := ∀ p ∈ t.pending, p.sink = sink ↔ p.seq = seq

theorem InOrder.filter_leaving (h : t.InOrder) (leaves : Pending → Bool) (seq : Nat) :
    (t.pending.filter leaves).filter (·.seq == seq) = ((t.find? seq).filter leaves).toList := by
  rw [List.filter_comm, h.filter_seq]
  cases t.find? seq with
  | none => rfl
  | some p => cases hl : leaves p <;> simp [Option.filter, hl]

theorem InOrder.find?_filter (h : t.InOrder) (keep : Pending → Bool) (seq : Nat) :
    find? { t with pending := t.pending.filter keep } seq = (t.find? seq).filter keep := by
  rw [find?, ← List.head?_filter, h.filter_leaving]
  cases (t.find? seq).filter keep <;> rfl

theorem Dismisses.shows (hd : t.Dismisses leaves reply reset r) (h : t.InOrder)
    (hown : t.Own seq sink) :
    t.Shows seq sink r ((t.find? seq).filter fun p => !leaves p)
      (((t.find? seq).filter leaves).toList.map fun _ => reply)
      (((t.find? seq).filter leaves).toList.flatMap fun _ => reset.toList) where
  entry := by
    rw [hd.value]
    exact h.find?_filter _ seq
  replied := by
    obtain ⟨closing, hactions, hclosing⟩ := hd.actions
    have hsilent : replies sink closing = [] := by
      rcases hclosing with rfl | rfl
      · rfl
      · exact closeIfDrained_replies _ _
    have hsame : (t.pending.filter leaves).filter (·.sink == sink)
        = (t.pending.filter leaves).filter (·.seq == seq) :=
      List.filter_congr fun p hp => by simpa using hown p (List.mem_filter.1 hp).1
    rw [hactions, Action.replies_append, hsilent, List.append_nil, dismiss, replies_dismissed, hsame,
      h.filter_leaving]
  given := by
    rw [hd.value, dismiss, Abandoned.resets_append, resets_dismissed, h.filter_leaving]

theorem Dismisses.spares (hd : t.Dismisses leaves reply reset r) (h : t.InOrder)
    (hown : t.Own seq sink) (hstays : ∀ p, t.find? seq = some p → leaves p = false) :
    t.Shows seq sink r (t.find? seq) [] [] := by
  have hshows := hd.shows h hown
  cases hf : t.find? seq with
  | none => simpa [hf] using hshows
  | some p => simpa [hf, Option.filter, hstays p hf] using hshows

theorem Dismisses.ends (hd : t.Dismisses leaves reply reset r) (h : t.InOrder)
    (hown : t.Own seq sink) (hf : t.find? seq = some p) (hl : leaves p = true) :
    t.Shows seq sink r none [reply] reset.toList := by
  simpa [hf, Option.filter, hl] using hd.shows h hown

end Tracker

end HttpSession
