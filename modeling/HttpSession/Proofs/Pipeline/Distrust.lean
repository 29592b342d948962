import HttpSession.Proofs.Pipeline.Correspondence
import HttpSession.Proofs.Session.Success

/-! What a pipeline still believes after a part against the protocol. -/

namespace HttpSession

open Happening (ofActions)

namespace Tracker

variable {t : Tracker} {p : Pending} {tail : List Pending}

theorem InOrder.receive_head (h : t.InOrder) (hb : t.binding = .ordered) (hs : t.desynced = false)
    (hp : t.pending = p :: tail) (head : ResponseHead) (hi : head.isInterim = false) :
    ∃ q known, (t.receive none (.head head)).value.tracker = { t with pending := q :: tail }
      ∧ q.seq = p.seq ∧ q.head = some known := by
  rw [h.receive_first hb hs hp]
  cases hhead : p.head with
  | none =>
      refine ⟨{ p with head := some head }, head, ?_, rfl, rfl⟩
      have hupdate := h.update_first hp fun q => { q with head := some head }
      simp only [receivePart, hhead, hi, Bool.false_eq_true, if_false, accepted, Traced.value_pure]
      rw [← hupdate]
      rfl
  | some known =>
      refine ⟨p, known, ?_, rfl, hhead⟩
      simp only [receivePart, hhead, hi, Bool.false_eq_true, if_false, rejected]
      rw [← hp]

theorem InOrder.receive_finish (h : t.InOrder) (hb : t.binding = .ordered) (hs : t.desynced = false)
    (hp : t.pending = p :: tail) {head : ResponseHead} (hhead : p.head = some head) :
    .answer p.sink (.complete ⟨head, p.body.toOctets, p.trailers⟩)
      ∈ (t.receive none .finish).actions := by
  rw [h.receive_first hb hs hp]
  simp [receivePart, hhead, accepted, settle, h.find?_first hp]

end Tracker

namespace Traffic

variable {c d : Traffic} {h x : List Happening}

structure IsSpent (c : Traffic) : Prop where
  pending : c.tracker.pending = []
  ceiling : c.ceiling ≤ c.dispatched

namespace IsSpent

theorem move (hc : Coherent h c) (hs : c.IsSpent) (hm : Move c x d) :
    d.IsSpent ∧ ∀ sink r, .action (.answer sink (.complete r)) ∉ x := by
  rcases hm.advance hc.inOrder (fun a ha => (hc.abandoned a ha).2) with
    ha | ⟨clock, options, request, sink, deadline, room, -, -⟩
  · refine ⟨⟨ha.tracker.pending_nil hs.pending, ?_⟩, fun sink r hr => ?_⟩
    · rw [ha.dispatched, hm.sameSetup.ceiling]
      exact hs.ceiling
    · rcases hm.plain with hplain | ⟨stream, part, rfl, -⟩
      · simpa [Happening.isPlain] using hplain _ hr
      · have hr : .answer sink (.complete r) ∈ (c.tracker.receive stream part).actions := by
          simpa [Traffic.receive] using hr
        rcases Tracker.receive_replies hc.inOrder stream part _ hr with hq | ⟨-, p, hp, -⟩
        · simp [Action.isQuiet, Action.isIdle] at hq
        · simp [hs.pending] at hp
  · simp only [hasRoom, Bool.and_eq_true, decide_eq_true_eq] at room
    exact absurd room.1 (Nat.not_lt.2 hs.ceiling)

theorem path (hr : Reached h c) (hs : c.IsSpent) (hp : Path Move c x d) :
    d.IsSpent ∧ ∀ sink r, .action (.answer sink (.complete r)) ∉ x := by
  induction hp with
  | refl => exact ⟨hs, by simp⟩
  | snoc hq hm ih =>
      obtain ⟨hspent, hbefore⟩ := ih
      obtain ⟨hspent', hafter⟩ := hspent.move (hr.path hq).coherent hm
      refine ⟨hspent', fun sink r hmem => ?_⟩
      exact (List.mem_append.1 hmem).elim (hbefore sink r) (hafter sink r)

end IsSpent

end Traffic

def Input.isExchange : Input → Bool
  | .dispatch _ _ _ _ | .response _ _ => true
  | _ => false

namespace Session

open Traffic (Path Move Reached Coherent)

variable {s : Session} {c : Traffic} {h : List Happening}

def IsSpent (s : Session) : Prop := s.hasUnfinished = false ∧ s.ceiling ≤ s.dispatched

def exchanged : List Input := [.response none (.head ⟨200, .empty⟩), .response none .finish]

theorem exists_complete (ht : s.traffic? = some c) (hc : c.tracker.InOrder)
    (hb : c.tracker.binding = .ordered) (hs : c.tracker.desynced = false)
    (hp : c.tracker.pending ≠ []) :
    ∃ sink r, .action (.answer sink (.complete r)) ∈ s.history exchanged := by
  obtain ⟨p, tail, hp⟩ := List.exists_cons_of_ne_nil hp
  -- A head that was known before is kept.
  obtain ⟨q, known, htracker, hseq, hknown⟩ := hc.receive_head hb hs hp ⟨200, .empty⟩ (by decide)
  have horder : Tracker.InOrder { c.tracker with pending := q :: tail } := by
    rw [Tracker.InOrder, Tracker.seqs, hp] at hc
    simpa [Tracker.InOrder, Tracker.seqs, hseq] using hc
  have hanswer := horder.receive_finish hb hs rfl hknown
  have hnext : (s.step (.response none (.head ⟨200, .empty⟩))).value.traffic?
      = some (c.receive none (.head ⟨200, .empty⟩)).value :=
    (response_established ht none _).1
  have hnow : (c.receive none (.head ⟨200, .empty⟩)).value.tracker
      = { c.tracker with pending := q :: tail } := htracker
  refine ⟨q.sink, ⟨known, q.body.toOctets, q.trailers⟩, ?_⟩
  rw [exchanged, history_cons, history_cons, step_actions _ (.response none .finish),
    (response_established hnext none .finish).2]
  refine List.mem_append_right _ (List.mem_append_left _ (List.mem_cons_of_mem _ ?_))
  exact Happening.action_mem_ofActions.2 (List.mem_append_left _ (hnow ▸ hanswer))

theorem IsSpent.silent (hs : s.IsNew) {inputs : List Input} (ht : (s.after inputs).traffic? = some c)
    (hspent : (s.after inputs).IsSpent) (more : List Input) :
    ∀ sink r, .action (.answer sink (.complete r)) ∉ (s.after inputs).history more := by
  intro sink r hmem
  have hr := (hs.established inputs ht).1
  obtain ⟨hphase, hdispatched, hceiling⟩ := traffic?_eq_some ht
  have hc : c.IsSpent := by
    obtain ⟨hpending, hfull⟩ := hspent
    refine ⟨?_, hceiling ▸ hdispatched ▸ hfull⟩
    simpa [hasUnfinished, tracker?, hphase, Tracker.hasOutstanding] using hpending
  obtain ⟨d, x, y, hxy, hpath, hquiet, -⟩ := course ht more
  rw [hxy] at hmem
  rcases List.mem_append.1 hmem with hmem | hmem
  · exact (hc.path hr hpath).2 sink r hmem
  · simpa [Action.isQuiet, Action.isIdle] using hquiet _ hmem

theorem onResponse_rejected {w : Writer} {t : Tracker} (h : s.phase = .established w t)
    {stream : Option StreamId} {part : Part} {fault : Fault}
    (hf : (s.onResponse stream part).value.2 = some fault) :
    t.desynced = false ∧ s.respond (.response stream part) = ⟨s, [.call .close]⟩ := by
  have hreceive : (t.receive stream part).value.fault = some fault := by
    simpa [onResponse, h] using hf
  have hself : { s with phase := .established w t } = s := by rw [← h]
  refine ⟨Tracker.synced_of_rejected hreceive, ?_⟩
  simp only [respond, onResponse, h, Tracker.receive_rejected hreceive, hself]
  rfl

theorem exists_traffic (hs : s.IsNew) {inputs : List Input} (hp : (s.after inputs).IsPipelined)
    {stream : Option StreamId} {part : Part} {fault : Fault}
    (hf : ((s.after inputs).onResponse stream part).value.2 = some fault) :
    ∃ c, (s.after inputs).traffic? = some c := by
  obtain ⟨p, hprotocol, -⟩ := hp
  cases hs.stands inputs with
  | established c traffic => exact ⟨c, traffic⟩
  | negotiating _ _ silent | failed _ silent => simp [silent] at hprotocol
  | closed _ _ _ phase => simp [onResponse, phase] at hf

theorem IsNew.exists_complete (hs : s.IsNew) {inputs : List Input}
    (hp : (s.after inputs).IsPipelined) (ht : (s.after inputs).traffic? = some c)
    (hsync : c.tracker.desynced = false) (hspent : ¬(s.after inputs).IsSpent) :
    ∃ more sink r, (∀ i ∈ more, i.isExchange = true)
      ∧ .action (.answer sink (.complete r)) ∈ (s.after inputs).history more := by
  obtain ⟨hr, hb⟩ := hs.pipelined hp ht
  by_cases hpending : c.tracker.pending = []
  · -- Nothing is awaited, so that there is a number for another request.
    have hroom : c.hasRoom = true := by
      obtain ⟨hphase, hdispatched, hceiling⟩ := traffic?_eq_some ht
      have hfree : ¬c.ceiling ≤ c.dispatched := fun hfull => hspent
        ⟨by simp [hasUnfinished, tracker?, hphase, Tracker.hasOutstanding, hpending],
          hdispatched ▸ hceiling ▸ hfull⟩
      simpa [Traffic.hasRoom, Tracker.isClosing, hsync] using Nat.lt_of_not_le hfree
    let clock : Clock := ⟨0, 0, fun _ => false⟩
    have hnext := (dispatch_of_room ht hroom clock .default .bare 0).1
    have hmove := Move.enroll clock .default .bare 0
      ((s.after inputs).deadlineOf clock .default).1 hroom
    obtain ⟨sink, r, hanswer⟩ := Session.exists_complete
      (s := ((s.after inputs).step (.dispatch clock .default .bare 0)).value) hnext
      (hr.move hmove).coherent.inOrder (hmove.sameSetup.binding.trans hb)
      ((Traffic.enroll_desynced c ..).trans hsync) (by simp [hr.coherent.enroll_pending])
    exact ⟨.dispatch clock .default .bare 0 :: exchanged, sink, r, by simp [exchanged, Input.isExchange],
      List.mem_append_right _ hanswer⟩
  · obtain ⟨sink, r, hanswer⟩ := Session.exists_complete ht hr.coherent.inOrder hb hsync hpending
    exact ⟨exchanged, sink, r, by simp [exchanged, Input.isExchange], hanswer⟩

/-- A part against the protocol leaves a pipeline as it was, but for the close that it asks for. What
comes later is believed unless nothing was awaited and no request can be taken any more. -/
theorem believes_after_violation (hs : s.IsNew) {inputs : List Input}
    (hp : (s.after inputs).IsPipelined) {stream : Option StreamId} {part : Part} {fault : Fault}
    (hf : ((s.after inputs).onResponse stream part).value.2 = some fault) :
    (s.after inputs).respond (.response stream part) = ⟨s.after inputs, [.call .close]⟩
      ∧ ((s.after inputs).IsSpent → ∀ more sink r, .action (.answer sink (.complete r))
          ∉ (s.after (inputs ++ [.response stream part])).history more)
      ∧ (¬(s.after inputs).IsSpent → ∃ more sink r, (∀ i ∈ more, i.isExchange = true)
          ∧ .action (.answer sink (.complete r))
            ∈ (s.after (inputs ++ [.response stream part])).history more) := by
  obtain ⟨c, ht⟩ := exists_traffic hs hp hf
  obtain ⟨hsync, hrespond⟩ := onResponse_rejected (traffic?_eq_some ht).1 hf
  -- The session after the part differs by its channel only.
  have hafter : s.after (inputs ++ [.response stream part])
      = { s.after inputs with
          channel := (s.after inputs).channel.after [.call .close] } := by
    rw [after_append, after_cons, after_nil, step, felt, hrespond]
  have htraffic : (s.after (inputs ++ [.response stream part])).traffic? = some c := by
    rw [hafter]
    exact ht
  have hpipelined : (s.after (inputs ++ [.response stream part])).IsPipelined := by
    rw [hafter]
    exact hp
  have hsame : (s.after (inputs ++ [.response stream part])).IsSpent ↔ (s.after inputs).IsSpent := by
    rw [hafter]
    exact Iff.rfl
  refine ⟨hrespond, fun hspent => ?_, fun hspent => ?_⟩
  · exact IsSpent.silent hs htraffic (hsame.2 hspent)
  · exact hs.exists_complete hpipelined htraffic hsync (mt hsame.1 hspent)

def exhausted : List Input :=
  [.negotiated .new true .h1, .dispatch ⟨0, 0, fun _ => false⟩ .default .bare 7, turn] ++ exchanged

theorem believes_after_violation_exhausted :
    ((blank 1).after exhausted).IsPipelined
      ∧ (((blank 1).after exhausted).onResponse none .finish).value.2
        = some (Fault.violation "received a response with no outstanding request")
      ∧ ((blank 1).after exhausted).IsSpent
      ∧ ∀ more sink r, .action (.answer sink (.complete r))
        ∉ ((blank 1).after (exhausted ++ [.response none .finish])).history more := by
  have pipelined : ((blank 1).after exhausted).IsPipelined := ⟨.h1, by decide +kernel, rfl⟩
  have fault : (((blank 1).after exhausted).onResponse none .finish).value.2
      = some (Fault.violation "received a response with no outstanding request") := by
    decide +kernel
  have spent : ((blank 1).after exhausted).IsSpent := ⟨by decide +kernel, by decide +kernel⟩
  exact ⟨pipelined, fault, spent,
    (believes_after_violation (blank_isNew 1) pipelined fault).2.1 spent⟩

def objected : List Input :=
  [.negotiated .new true .h1, .dispatch ⟨0, 0, fun _ => false⟩ .default .bare 7, turn,
    .response none (.data (ascii "x"))]

theorem complete_after_violation :
    (blank 2).IsNew ∧ ((blank 2).after (objected.take 3)).IsPipelined
      ∧ (((blank 2).after (objected.take 3)).onResponse none (.data (ascii "x"))).value.2
        = some (Fault.violation "received response data before the head")
      ∧ (((blank 2).after (objected.take 3)).respond (.response none (.data (ascii "x")))).actions
        = [.call .close]
      ∧ .action (.answer 7 (.complete ⟨⟨200, .empty⟩, [], none⟩))
        ∈ ((blank 2).after objected).history exchanged
      ∧ .action (.answer 8 (.complete ⟨⟨200, .empty⟩, [], none⟩))
        ∈ ((blank 2).after (objected ++ exchanged)).history
          (.dispatch ⟨0, 0, fun _ => false⟩ .default .bare 8 :: turn :: exchanged) := by
  refine ⟨blank_isNew 2, ⟨.h1, by decide +kernel, rfl⟩, by decide +kernel, by decide +kernel, ?_, ?_⟩
  · rw [Happening.action_mem_iff]
    decide +kernel
  · rw [Happening.action_mem_iff]
    decide +kernel

end Session

end HttpSession
