import HttpSession.Proofs.Session.Advance

/-! What was written and what is awaited fit together. -/

namespace HttpSession

open Happening (ofActions)

namespace Traffic

structure Coherent (h : List Happening) (c : Traffic) : Prop where
  inOrder : c.tracker.InOrder
  numbered : (enrolled h).map Prod.fst = List.range' 1 c.dispatched
  awaited : ∀ p ∈ c.tracker.awaited, p ∈ enrolled h
  lines : (launched h ++ c.queued).Pairwise (· < ·)
  taken : ∀ seq ∈ launched h ++ c.queued, 0 < seq ∧ seq ≤ c.dispatched
  flying : c.flying.Sublist (launched h)
  placed : ∀ seq ∈ c.tracker.seqs, seq ∈ launched h ++ c.queued
  desynced : c.tracker.desynced = true → c.tracker.pending = []
  abandoned : ∀ a ∈ c.tracker.abandoned, a.seq ≤ c.dispatched ∧ a.seq ∉ c.tracker.seqs

variable {c d : Traffic} {h x : List Happening}

namespace Coherent

theorem seqs_le (hc : Coherent h c) {seq : Nat} (hs : seq ∈ c.tracker.seqs) : seq ≤ c.dispatched :=
  (hc.taken seq (hc.placed seq hs)).2

theorem fresh {h : List Happening} (quiet : Quiet h) (ceiling : Nat) (encoder : Encoder)
    (timer : Timer) : Coherent h (fresh ceiling encoder timer) where
  inOrder := .nil
  numbered := by simp [quiet.enrolled, Traffic.fresh]
  awaited := by simp [Traffic.fresh, Tracker.new, Tracker.awaited]
  lines := by simp [quiet.launched, Traffic.fresh, Writer.new, queued]
  taken := by simp [quiet.launched, Traffic.fresh, Writer.new, queued]
  flying := by simp [quiet.launched, Traffic.fresh, Writer.new, Traffic.flying]
  placed := by simp [Traffic.fresh, Tracker.new, Tracker.seqs]
  desynced := by simp [Traffic.fresh, Tracker.new]
  abandoned := by simp [Traffic.fresh, Tracker.new]

theorem advance (hc : Coherent h c) (ha : Advance c x d) : Coherent (h ++ x) d where
  inOrder := ha.tracker.inOrder hc.inOrder
  numbered := by rw [enrolled_append, ha.enrolled, List.append_nil, ha.dispatched, hc.numbered]
  awaited p hp := by
    rw [enrolled_append, ha.enrolled, List.append_nil]
    exact hc.awaited p (ha.tracker.awaited.subset hp)
  lines := by
    rw [launched_append, List.append_assoc]
    exact hc.lines.sublist (ha.lines.append_left _)
  taken seq hs := by
    rw [launched_append, List.append_assoc] at hs
    rw [ha.dispatched]
    exact hc.taken seq ((ha.lines.append_left _).subset hs)
  flying := by
    rw [launched_append]
    exact ha.flying.trans (hc.flying.append_right _)
  placed seq hs := by
    rw [launched_append, List.append_assoc, List.mem_append]
    exact (List.mem_append.1 (hc.placed seq (ha.tracker.seqs.subset hs))).imp id (ha.placed seq hs)
  desynced hd := by
    rcases ha.tracker.desynced hd with hd | hnil
    · exact ha.tracker.pending_nil (hc.desynced hd)
    · exact hnil
  abandoned a hd := by
    rw [ha.dispatched]
    rcases ha.tracker.abandoned a hd with hd | ⟨hin, hout⟩
    · exact (hc.abandoned a hd).imp_right fun hout hs => hout (ha.tracker.seqs.subset hs)
    · exact ⟨hc.seqs_le hin, hout⟩

theorem seqs_lt (hc : Coherent h c) : ∀ s ∈ c.tracker.seqs, s < c.dispatched + 1 := fun _ hs =>
  Nat.lt_succ_of_le (hc.seqs_le hs)

variable (options : Options) (request : Request) (sink : Nat) (deadline : Option Instant)

theorem enroll_pending (hc : Coherent h c) :
    (c.enroll options request sink deadline).value.tracker.pending
      = c.tracker.pending
        ++ [⟨c.dispatched + 1, sink, none, .empty, none, options.maxLength, deadline⟩] := by
  rw [Traffic.enroll_pending, Tracker.register_pending hc.seqs_lt]

theorem enroll_seqs (hc : Coherent h c) :
    (c.enroll options request sink deadline).value.tracker.seqs
      = c.tracker.seqs ++ [c.dispatched + 1] := by
  rw [Tracker.seqs, hc.enroll_pending, List.map_append]
  rfl

theorem enroll_lines (c : Traffic) (clock : Clock) :
    launched (h ++ .input (.dispatch clock options request sink)
        :: ofActions (c.enroll options request sink deadline).actions)
      ++ (c.enroll options request sink deadline).value.queued
      = (launched h ++ c.queued) ++ [c.dispatched + 1] := by
  simp [launched_enroll, enroll_queued]

theorem enroll (hc : Coherent h c) (clock : Clock) (room : c.hasRoom = true) :
    Coherent (h ++ .input (.dispatch clock options request sink)
        :: ofActions (c.enroll options request sink deadline).actions)
      (c.enroll options request sink deadline).value where
  inOrder := by
    rw [Tracker.InOrder, hc.enroll_seqs, List.pairwise_append]
    exact ⟨hc.inOrder, List.pairwise_singleton _ _, by simpa using hc.seqs_lt⟩
  numbered := by
    rw [enrolled_append, List.map_append, hc.numbered, enrolled_input, enrolled_enroll]
    rw [enroll_dispatched, List.range'_1_concat, Nat.add_comm 1]
    rfl
  awaited p hp := by
    rw [enrolled_append, enrolled_input, enrolled_enroll, List.mem_append]
    rw [Tracker.awaited, hc.enroll_pending, List.map_append, List.mem_append] at hp
    exact hp.imp (hc.awaited p) id
  lines := by
    rw [enroll_lines, List.pairwise_append]
    refine ⟨hc.lines, List.pairwise_singleton _ _, fun s hs r hr => ?_⟩
    obtain rfl := List.mem_singleton.1 hr
    exact Nat.lt_succ_of_le (hc.taken s hs).2
  taken s hs := by
    rw [enroll_lines, List.mem_append] at hs
    rcases hs with hs | hs
    · exact (hc.taken s hs).imp_right Nat.le_succ_of_le
    · obtain rfl := List.mem_singleton.1 hs
      exact ⟨Nat.succ_pos _, Nat.le_refl _⟩
  flying := by
    rw [launched_append, launched_input, launched_enroll, List.append_nil]
    exact hc.flying
  placed s hs := by
    rw [enroll_lines, List.mem_append]
    rw [hc.enroll_seqs, List.mem_append] at hs
    exact hs.imp (hc.placed s) id
  desynced := by
    have hin : c.tracker.desynced = false := by
      simp only [hasRoom, Tracker.isClosing, Bool.and_eq_true] at room
      simpa using room.2
    rw [enroll_desynced, hin]
    simp
  abandoned a ha := by
    rw [enroll_abandoned] at ha
    obtain ⟨hle, hout⟩ := hc.abandoned a ha
    refine ⟨Nat.le_succ_of_le hle, fun hs => ?_⟩
    rw [hc.enroll_seqs, List.mem_append] at hs
    rcases hs with hs | hs
    · exact hout hs
    · exact absurd (List.mem_singleton.1 hs) (Nat.ne_of_lt (Nat.lt_succ_of_le hle))

end Coherent

theorem Reached.coherent (hr : Reached h c) : Coherent h c := by
  induction hr with
  | fresh quiet ceiling encoder timer => exact .fresh quiet ceiling encoder timer
  | move _ hm ih =>
      rcases hm.advance ih.inOrder (fun a ha => (ih.abandoned a ha).2) with
        ha | ⟨clock, options, request, sink, deadline, room, rfl, rfl⟩
      · exact ih.advance ha
      · exact ih.enroll options request sink deadline clock room

end Traffic

end HttpSession
