import HttpSession.Proofs.Session.Coherence

namespace HttpSession

open Happening (ofActions)

structure Handed where
  seq : Nat
  piece : Piece
  ok : Bool
  deriving DecidableEq, Repr

def Happening.handed? : Happening → Option Handed
  | .action (.encode seq piece ok) => some ⟨seq, piece, ok⟩
  | _ => none

def handed (h : List Happening) : List Handed := h.filterMap Happening.handed?

section

variable {h x : List Happening} {actions : List Action}

@[simp] theorem handed_nil : handed [] = [] := rfl

@[simp] theorem handed_append : handed (h ++ x) = handed h ++ handed x := List.filterMap_append

@[simp] theorem handed_input (i : Input) : handed (.input i :: h) = handed h := rfl

theorem handed_eq_nil (hn : ∀ a ∈ actions, Happening.handed? (.action a) = none) :
    handed (ofActions actions) = [] := by
  simpa [handed, Happening.ofActions] using hn

theorem Action.handed?_of_isQuiet {a : Action} (h : a.isQuiet = true) :
    Happening.handed? (.action a) = none := by
  cases a with
  | encode => simp [isQuiet, isIdle] at h
  | _ => rfl

theorem handed_quiet (hq : ∀ a ∈ actions, a.isQuiet = true) : handed (ofActions actions) = [] :=
  handed_eq_nil fun a ha => Action.handed?_of_isQuiet (hq a ha)

theorem Quiet.handed (hq : Quiet h) : handed h = [] := by
  simp only [HttpSession.handed, List.filterMap_eq_nil_iff]
  intro x hx
  cases x with
  | input => rfl
  | action a => exact Action.handed?_of_isQuiet (hq a hx)

end

namespace Emission

variable {sent : Emission} {seq : Nat} {piece : Piece}

@[simp] theorem handed_actions :
    handed (ofActions (sent.actions seq piece)) = [⟨seq, piece, sent.fault.isNone⟩] := by
  have hcalls : handed (ofActions (sent.calls.map Action.call)) = [] := by
    refine handed_eq_nil fun a ha => ?_
    obtain ⟨c, -, rfl⟩ := List.mem_map.1 ha
    rfl
  rw [actions, Happening.ofActions_append, handed_append, hcalls]
  rfl

end Emission

namespace Traffic

variable {c d : Traffic} {h x : List Happening}

theorem enroll_handed (c : Traffic) (options : Options) (request : Request) (sink : Nat)
    (deadline : Option Instant) :
    handed (ofActions (c.enroll options request sink deadline).actions) = [] := by
  obtain ⟨closing, ha, hq⟩ := c.enroll_actions options request sink deadline
  rw [ha, Happening.ofActions_cons]
  exact handed_quiet hq

theorem receive_actions (ht : c.tracker.InOrder) (stream : Option StreamId) (part : Part) :
    ∀ a ∈ (c.receive stream part).actions,
      a.isQuiet = true ∨ ∃ sink r, a = .answer sink (.complete r) := by
  intro a ha
  rcases List.mem_append.1 ha with ha | ha
  · rcases Tracker.receive_replies ht stream part a ha with hq | ⟨-, p, -, head, -, -, -, rfl⟩
    · exact .inl hq
    · exact .inr ⟨_, _, rfl⟩
  · split at ha
    · obtain rfl := List.mem_singleton.1 ha
      exact .inl rfl
    · simp at ha

theorem receive_handed (ht : c.tracker.InOrder) (stream : Option StreamId) (part : Part) :
    handed (ofActions (c.receive stream part).actions) = [] := by
  refine handed_eq_nil fun a ha => ?_
  rcases receive_actions ht stream part a ha with hq | ⟨sink, r, rfl⟩
  · exact Action.handed?_of_isQuiet hq
  · rfl

theorem giveUp_handed (c : Traffic) (seq : Nat) (fault : Fault) :
    ∃ ok, handed (ofActions (c.giveUp seq fault).actions) = [⟨seq, .reset, ok⟩] := by
  refine ⟨(c.writer.encoder.put seq .reset).fault.isNone, ?_⟩
  simp [giveUp, track, encode, handed_quiet (Tracker.fail_quiet c.tracker seq fault)]

end Traffic

theorem Writer.not_mem_eraseP {active : List InFlight} (h : (active.map InFlight.seq).Nodup)
    (seq : Nat) : seq ∉ (active.eraseP (·.seq == seq)).map InFlight.seq := by
  have hmap : (active.eraseP (·.seq == seq)).map InFlight.seq = (active.map InFlight.seq).erase seq := by
    rw [List.erase_eq_eraseP', List.eraseP_map]
    rfl
  rw [hmap]
  exact h.not_mem_erase

theorem Writer.abandon_cases (w : Writer) (a : Abandoned) :
    (a.seq ∈ w.queue.map Upload.seq
        ∧ w.abandon a.seq a.reset = ({ w with queue := w.queue.eraseP (·.seq == a.seq) }, []))
      ∨ a.seq ∉ w.queue.map Upload.seq
        ∧ ((w.abandon a.seq a.reset).1.queue = w.queue
          ∧ (w.abandon a.seq a.reset).1.active = w.active.eraseP (·.seq == a.seq)
          ∧ handed (ofActions (w.abandon a.seq a.reset).2)
            = if a.reset = true then
                [⟨a.seq, .reset, (w.encoder.put a.seq .reset).fault.isNone⟩]
              else []) := by
  have hmem : a.seq ∈ w.queue.map Upload.seq ↔ w.queue.any (·.seq == a.seq) = true := by
    simp
  by_cases hq : w.queue.any (·.seq == a.seq) = true
  · exact .inl ⟨hmem.2 hq, by simp only [Writer.abandon, hq, if_true]⟩
  · refine .inr ⟨mt hmem.1 hq, ?_⟩
    rw [Bool.not_eq_true] at hq
    cases hr : a.reset <;> simp [Writer.abandon, hq]

end HttpSession
