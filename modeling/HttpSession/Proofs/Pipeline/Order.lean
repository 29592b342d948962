import HttpSession.Proofs.Pipeline.Correspondence

namespace HttpSession

open Happening (ofActions)

namespace Tracker

variable {t : Tracker} {p : Pending} {seq : Nat}

/-- What the tracker of a pipeline does as long as no response is reset: responses go from the front,
and whoever gives one up asks for a close. -/
structure Orderly (t : Tracker) (r : Traced Tracker) : Prop where
  closing : r.value.desynced = true → t.desynced = true ∨ .call .close ∈ r.actions
  drained : r.value.draining = true → r.value.pending = [] →
    t.pending = [] ∨ t.desynced = true ∨ .call .close ∈ r.actions
  poisoned : ∀ a ∈ r.value.abandoned, a ∈ t.abandoned ∨ r.value.desynced = true ∧ a.reset = false

theorem Orderly.pure (t : Tracker) : t.Orderly (pure t) :=
  ⟨.inl, fun _ => .inl, fun _ => .inl⟩

theorem close_mem_closeIfDrained (hd : t.draining = true) (hp : t.pending = []) :
    .call .close ∈ t.closeIfDrained := by
  simp [closeIfDrained, hd, hp]

theorem settle_orderly (t : Tracker) (seq : Nat) (reply : Reply) : t.Orderly (t.settle seq reply) where
  closing := .inl
  drained hd hp := .inr (.inr (List.mem_append_right _ (close_mem_closeIfDrained hd hp)))
  poisoned _ := .inl

theorem update_orderly (t : Tracker) (seq : Nat) (f : Pending → Pending) :
    t.Orderly (Pure.pure (t.update seq f)) where
  closing := .inl
  drained _ hp := .inl (by simpa [update] using hp)
  poisoned _ := .inl

theorem afterAbandon_orderly (hb : t.binding = .ordered) (left : List Pending)
    (given : List Nat) (actions : List Action) :
    let r := afterAbandon { t with pending := left } given
    t.Orderly ⟨r.value, actions ++ r.actions⟩ := by
  simp only [afterAbandon, hb, desync]
  split
  · rename_i hs
    refine ⟨fun _ => .inl hs, fun _ _ => .inr (.inl hs), fun a ha => ?_⟩
    rcases List.mem_append.1 ha with ha | ha
    · exact .inl ha
    · obtain ⟨seq, -, rfl⟩ := List.mem_map.1 ha
      exact .inr ⟨hs, rfl⟩
  · refine ⟨fun _ => .inr (by simp), fun _ _ => .inr (.inr (by simp)), fun a ha => ?_⟩
    simp only [List.mem_append, List.mem_map] at ha
    rcases ha with (ha | ⟨seq, -, rfl⟩) | ⟨p, -, rfl⟩
    · exact .inl ha
    · exact .inr ⟨rfl, rfl⟩
    · exact .inr ⟨rfl, rfl⟩

theorem abandon_orderly (hb : t.binding = .ordered) (seq : Nat) (fault : Fault) :
    t.Orderly (t.abandon seq fault) := by
  unfold abandon
  split
  · exact .pure t
  · exact afterAbandon_orderly hb _ [seq] [_]

theorem fail_orderly (hb : t.binding = .ordered) (seq : Nat) (fault : Fault) :
    t.Orderly (t.fail seq fault) := by
  simp only [fail, hb]
  exact abandon_orderly hb seq fault

theorem expire_orderly (hb : t.binding = .ordered) (now : Instant) : t.Orderly (t.expire now) := by
  unfold expire
  dsimp only
  split
  · exact .pure t
  · exact afterAbandon_orderly hb _ _ _

theorem receivePart_orderly (hb : t.binding = .ordered) (p : Pending) {part : Part}
    (hn : ∀ reason, part ≠ .reset reason) :
    let r := t.receivePart p part
    t.Orderly ⟨r.value.tracker, r.actions⟩ := by
  have hreception := t.receivePart_reception p part
  generalize t.receivePart p part = r at hreception ⊢
  cases hreception with
  | ignored | wrong => exact .pure t
  | added => exact update_orderly t _ _
  | tooLarge => exact abandon_orderly hb _ _
  | complete => exact settle_orderly t _ _
  | reset reason => exact absurd rfl (hn reason)

theorem receive_orderly (hb : t.binding = .ordered) (stream : Option StreamId) {part : Part}
    (hn : ∀ reason, part ≠ .reset reason) :
    let r := t.receive stream part
    t.Orderly ⟨r.value.tracker, r.actions⟩ := by
  obtain ⟨fault, he⟩ | ⟨p, -, -, -, he⟩ := t.receive_cases stream part
  · rw [he]
    exact .pure t
  · rw [he]
    exact receivePart_orderly hb p hn

def GoesFromFront (t u : Tracker) : Prop :=
  ∀ b ∈ t.seqs, b ∈ u.seqs ∨ ∀ a ∈ u.seqs, b ≤ a

theorem GoesFromFront.ofSeqs {u : Tracker} (hu : u.seqs = t.seqs) : t.GoesFromFront u :=
  fun _ hb => .inl (hu ▸ hb)

theorem GoesFromFront.ofNil {u : Tracker} (hu : u.pending = []) : t.GoesFromFront u :=
  fun _ _ => .inr (by simp [seqs, hu])

theorem update_seqs (t : Tracker) (seq : Nat) (f : Pending → Pending) (hf : ∀ p, (f p).seq = p.seq) :
    (t.update seq f).seqs = t.seqs := by
  simp only [seqs, update, List.map_map]
  refine List.map_congr_left fun p _ => ?_
  simp only [Function.comp_apply]
  split
  · exact hf p
  · rfl

theorem InOrder.erase_front (h : t.InOrder) {tail : List Pending} (hp : t.pending = p :: tail) :
    t.GoesFromFront (t.erase p.seq) := by
  intro b hb
  have htail := h.erase_first hp
  rw [InOrder, seqs, hp, List.map_cons, List.pairwise_cons] at h
  rw [seqs, hp, List.map_cons, List.mem_cons] at hb
  rcases hb with rfl | hb
  · exact .inr fun a ha => Nat.le_of_lt (h.1 a (by simpa [seqs, htail] using ha))
  · exact .inl (by simpa [seqs, htail] using hb)

theorem InOrder.receivePart_front (h : t.InOrder) (hb : t.binding = .ordered) {tail : List Pending}
    (hp : t.pending = p :: tail) (part : Part) :
    t.GoesFromFront (t.receivePart p part).value.tracker
      ∨ (t.receivePart p part).value.tracker.desynced = true := by
  have hreception := t.receivePart_reception p part
  generalize t.receivePart p part = r at hreception ⊢
  cases hreception with
  | ignored | wrong => exact .inl (.ofSeqs rfl)
  | added f same => exact .inl (.ofSeqs (update_seqs _ _ _ fun q => (same q).1))
  | tooLarge =>
      exact (abandon_ordered hb p.seq Fault.tooLarge).imp_left fun he => .ofSeqs (congrArg seqs he.1)
  | complete | reset => exact .inl (h.erase_front hp)

theorem InOrder.receive_front (h : t.InOrder) (hb : t.binding = .ordered)
    (stream : Option StreamId) (part : Part) :
    t.GoesFromFront (t.receive stream part).value.tracker
      ∨ (t.receive stream part).value.tracker.desynced = true := by
  cases hs : t.desynced with
  | true => exact .inl (.ofSeqs (by simp [receive, hs, accepted]))
  | false =>
      cases hp : t.pending with
      | nil => exact .inl (.ofSeqs (by simp [receive, hs, route, hb, hp]))
      | cons p tail =>
          rw [h.receive_first hb hs hp]
          exact h.receivePart_front hb hp part

end Tracker

namespace Writer

theorem abandon_silent (w : Writer) (seq : Nat) {reset : Bool} (h : reset = false) :
    (w.abandon seq reset).2 = [] := by
  unfold abandon
  split
  · rfl
  · simp [h]

theorem abandon_active_sublist (w : Writer) (seq : Nat) (reset : Bool) :
    (w.abandon seq reset).1.active.Sublist w.active := by
  unfold abandon
  split
  · exact .refl _
  · dsimp only
    split <;> exact List.eraseP_sublist

end Writer

namespace Traffic

variable {c d : Traffic} {h x : List Happening}

structure InLine (h : List Happening) (c : Traffic) : Prop where
  ordered : c.tracker.binding = .ordered
  single : c.writer.multiplex = false
  http1 : c.writer.encoder.binding = .ordered
  alone : c.writer.active.length ≤ 1
  last : ∀ f ∈ c.flying, ∀ a ∈ launched h, a ≤ f
  answered : ∀ a ∈ launched h, a ∈ c.tracker.seqs → ∀ b ∈ launched h, a < b → b ∈ c.tracker.seqs
  poisoned : ∀ a ∈ c.tracker.abandoned, c.tracker.desynced = true ∧ a.reset = false
  closing : c.tracker.desynced = true → .action (.call .close) ∈ h
  draining : 0 < c.dispatched → c.ceiling ≤ c.dispatched → c.tracker.draining = true
  drained : c.tracker.draining = true → c.tracker.pending = [] → .action (.call .close) ∈ h

namespace InLine

theorem fresh (quiet : Quiet h) (ceiling : Nat) (encoder : Encoder) (timer : Timer)
    (hb : encoder.binding = .ordered) : InLine h (fresh ceiling encoder timer) where
  ordered := hb
  single := by simp [Traffic.fresh, Writer.new, hb]
  http1 := hb
  alone := Nat.zero_le 1
  last := by simp [Traffic.fresh, Writer.new, flying]
  answered := by simp [quiet.launched]
  poisoned := by simp [Traffic.fresh, Tracker.new]
  closing := by simp [Traffic.fresh, Tracker.new]
  draining := by simp [Traffic.fresh]
  drained := by simp [Traffic.fresh, Tracker.new]

theorem still (hi : InLine h c) (ha : Advance c x d) (hk : SameSetup c d) (hl : launched x = [])
    {actions : List Action} (ho : c.tracker.Orderly ⟨d.tracker, actions⟩)
    (hx : .call .close ∈ actions → .action (.call .close) ∈ x)
    (hfront : ∀ b ∈ launched h, b ∈ c.tracker.seqs →
      b ∈ d.tracker.seqs ∨ ∀ a ∈ d.tracker.seqs, b ≤ a)
    (halone : d.writer.active.length ≤ 1) : InLine (h ++ x) d where
  ordered := hk.binding.trans hi.ordered
  single := hk.multiplex.trans hi.single
  http1 := hk.encoder.trans hi.http1
  alone := halone
  last f hf a hm := by
    rw [launched_append, hl, List.append_nil] at hm
    exact hi.last f (by simpa [hl] using ha.flying.subset hf) a hm
  answered a hm hs b hb hlt := by
    rw [launched_append, hl, List.append_nil] at hm hb
    rcases hfront b hb (hi.answered a hm (ha.tracker.seqs.subset hs) b hb hlt) with hd | hd
    · exact hd
    · exact absurd (hd a hs) (Nat.not_le.2 hlt)
  poisoned a hd := by
    rcases ho.poisoned a hd with hd | hd
    · exact ⟨ha.tracker.lasting (hi.poisoned a hd).1, (hi.poisoned a hd).2⟩
    · exact hd
  closing hd := by
    rw [List.mem_append]
    exact (ho.closing hd).imp hi.closing hx
  draining hpos hfull := by
    rw [ha.tracker.draining]
    rw [ha.dispatched] at hpos hfull
    exact hi.draining hpos (hk.ceiling ▸ hfull)
  drained hd hp := by
    rw [List.mem_append]
    rcases ho.drained hd hp with hp | hs | hclose
    · exact .inl (hi.drained (ha.tracker.draining ▸ hd) hp)
    · exact .inl (hi.closing hs)
    · exact .inr (hx hclose)

theorem enroll (hi : InLine h c) (hc : Coherent h c) (clock : Clock) (options : Options)
    (request : Request) (sink : Nat) (deadline : Option Instant) (room : c.hasRoom = true) :
    InLine (h ++ .input (.dispatch clock options request sink)
        :: ofActions (c.enroll options request sink deadline).actions)
      (c.enroll options request sink deadline).value := by
  have hk := (Move.enroll clock options request sink deadline room).sameSetup
  have hl : launched (h ++ .input (.dispatch clock options request sink)
      :: ofActions (c.enroll options request sink deadline).actions) = launched h := by
    simp [launched_enroll]
  have hseqs := hc.enroll_seqs options request sink deadline
  exact {
    ordered := hk.binding.trans hi.ordered
    single := hk.multiplex.trans hi.single
    http1 := hk.encoder.trans hi.http1
    alone := hi.alone
    last := by
      rw [hl]
      exact hi.last
    answered := by
      rw [hl, hseqs]
      simp only [List.mem_append]
      intro a ha hs b hb hlt
      refine .inl (hi.answered a ha (hs.resolve_right fun hs => ?_) b hb hlt)
      have hle := (hc.taken a (List.mem_append_left _ ha)).2
      have hnew := List.mem_singleton.1 hs
      omega
    poisoned := by
      rw [enroll_abandoned, enroll_desynced]
      exact hi.poisoned
    closing := by
      rw [enroll_desynced]
      exact fun hs => List.mem_append_left _ (hi.closing hs)
    draining := fun _ hfull => c.enroll_draining options request sink deadline hfull
    drained := by
      intro _ hp
      simp [Tracker.seqs, hp] at hseqs }

theorem active_eq_nil (hi : InLine h c) (free : c.writer.mayStart = true) :
    c.writer.active = [] := by
  simpa [Writer.mayStart, hi.single] using free

theorem flight_eq (hi : InLine h c) {f : InFlight} {before behind : List InFlight}
    (flight : c.writer.active = before ++ f :: behind) : before = [] ∧ behind = [] := by
  have := hi.alone
  rw [flight, List.length_append, List.length_cons] at this
  exact ⟨List.length_eq_zero_iff.1 (by omega), List.length_eq_zero_iff.1 (by omega)⟩

theorem launch (hi : InLine h c) (hc : Coherent h c) {clock : Clock} {u : Upload}
    {rest : List Upload} {sent : Emission} {gone : Nat → Bool}
    (next : c.writer.queue = u :: rest) (free : c.writer.mayStart = true)
    (wanted : c.tracker.isCanceled gone u.seq = false)
    (put : c.writer.encoder.put u.seq (.headers u.head u.body.isEnd) = sent)
    (ok : sent.fault = none) :
    InLine (h ++ ofActions (sent.actions u.seq (.headers u.head u.body.isEnd)))
      (((c.queue rest).encode sent.encoder).fly (c.writer.active ++ c.writer.started clock u)) := by
  have hidle := hi.active_eq_nil free
  have hl : launched (h ++ ofActions (sent.actions u.seq (.headers u.head u.body.isEnd)))
      = launched h ++ [u.seq] := by
    rw [launched_append, sent.launched_of_headers ok]
  have hbefore : ∀ a ∈ launched h, a < u.seq := fun a ha =>
    (List.pairwise_append.1 hc.lines).2.2 a ha u.seq (queued_next next ▸ List.mem_cons_self)
  have hstarted := (c.writer.started_seqs clock u)
  rw [hidle, List.nil_append]
  exact {
    ordered := hi.ordered
    single := hi.single
    http1 := (put ▸ Encoder.put_binding _ _ _ : sent.encoder.binding = _).trans hi.http1
    alone := by simpa [fly] using hstarted.length_le
    last := by
      intro f hf a ha
      obtain rfl := List.mem_singleton.1 (hstarted.subset hf)
      rw [hl, List.mem_append, List.mem_singleton] at ha
      exact ha.elim (fun ha => Nat.le_of_lt (hbefore a ha)) Nat.le_of_eq
    answered := by
      rw [hl]
      intro a ha hs b hb hlt
      rw [List.mem_append, List.mem_singleton] at ha hb
      rcases hb with hb | rfl
      · rcases ha with ha | rfl
        · exact hi.answered a ha hs b hb hlt
        · have hab := hbefore b hb
          omega
      · exact Tracker.mem_seqs_of_wanted wanted
    poisoned := hi.poisoned
    closing := fun hs => List.mem_append_left _ (hi.closing hs)
    draining := hi.draining
    drained := fun hd hp => List.mem_append_left _ (hi.drained hd hp) }

theorem front_of_same (hd : Coherent (h ++ x) d)
    (hs : d.tracker = c.tracker ∨ d.tracker.desynced = true) :
    c.tracker.GoesFromFront d.tracker := by
  rcases hs with hs | hs
  · exact .ofSeqs (by rw [hs])
  · exact .ofNil (hd.desynced hs)

theorem giveUp (hi : InLine h c) (actions : List Action) (hc : Coherent h c) {w : Writer} {seq : Nat}
    {fault : Fault} (hq : w.active = [])
    (ha : Advance c (ofActions (actions ++ ({ c with writer := w }.giveUp seq fault).actions))
      ({ c with writer := w }.giveUp seq fault).value)
    (hk : SameSetup c ({ c with writer := w }.giveUp seq fault).value)
    (hl : launched (ofActions actions) = []) :
    InLine (h ++ ofActions (actions ++ ({ c with writer := w }.giveUp seq fault).actions))
      ({ c with writer := w }.giveUp seq fault).value := by
  refine hi.still ha hk (by simp [hl]) (Tracker.fail_orderly hi.ordered seq fault) (fun hx => ?_)
    (fun b _ hb => ?_) ?_
  · simp only [Traffic.giveUp, track, Happening.ofActions_append, List.mem_append,
      Happening.action_mem_ofActions]
    exact .inr (.inr hx)
  · have hsame := (Tracker.fail_ordered hi.ordered seq fault).imp_left And.left
    exact front_of_same (hc.advance ha) hsame b hb
  · simp [Traffic.giveUp, track, encode, hq]

theorem write (hi : InLine h c) (hc : Coherent h c) {clock : Clock} {gone : Nat → Bool}
    (hw : Write clock gone c x d) : InLine (h ++ x) d := by
  have ha := hw.advance fun a ha => (hc.abandoned a ha).2
  have hk := hw.sameSetup
  cases hw with
  | stop a rest given =>
      have hreset := (hi.poisoned a (given ▸ List.mem_cons_self)).2
      have ho : c.tracker.Orderly ⟨{ c.tracker with abandoned := rest }, []⟩ :=
        ⟨.inl, fun _ => .inl, fun b hb => .inl (given ▸ List.mem_cons_of_mem a hb)⟩
      refine hi.still ha hk ?_ ho (by simp) (fun b _ => .inl) ?_
      · rw [c.writer.abandon_silent _ hreset, Happening.ofActions_nil, launched_nil]
      · exact Nat.le_trans (c.writer.abandon_active_sublist _ _).length_le hi.alone
  | skip u rest stopped next free canceled =>
      have hq := c.tracker.forget_quiet u.seq
      refine hi.still ha hk (launched_quiet hq) (Tracker.settle_orderly _ _ _)
        Happening.action_mem_ofActions.2 (fun b hb hs => .inl ?_) hi.alone
      have hlt := (List.pairwise_append.1 hc.lines).2.2 b hb u.seq
        (queued_next next ▸ List.mem_cons_self)
      exact Tracker.mem_forget_seqs.2 ⟨hs, Nat.ne_of_lt hlt⟩
  | launch u rest sent stopped next free wanted put ok =>
      exact hi.launch hc next free wanted put ok
  | miss u rest sent fault stopped next free wanted put failed =>
      exact hi.giveUp _ hc (hi.active_eq_nil free) ha hk (sent.launched_of_fault failed)
  | proceed f before behind octets rest sent stopped flight frame put ok =>
      refine hi.still ha hk (by simp [Piece.isBody]) (.pure _) (by simp) (fun b _ => .inl) ?_
      simpa [fly, flight] using hi.alone
  | stall f before behind stopped flight =>
      refine hi.still ha hk rfl (.pure _) (by simp) (fun b _ => .inl) ?_
      simpa [fly, flight] using hi.alone
  | complete f before behind piece sent stopped flight final put ok =>
      refine hi.still ha hk (sent.launched_of_body (.inl (Piece.isBody_of_isFinal final))) (.pure _)
        (by simp) (fun b _ => .inl) ?_
      obtain ⟨rfl, rfl⟩ := hi.flight_eq flight
      exact Nat.zero_le 1
  | lose f before behind piece sent fault stopped flight body put failed =>
      obtain ⟨rfl, rfl⟩ := hi.flight_eq flight
      exact hi.giveUp _ hc rfl ha hk (sent.launched_of_fault failed)
  | breakOff f before behind fault stopped flight =>
      obtain ⟨rfl, rfl⟩ := hi.flight_eq flight
      exact hi.giveUp (w := { c.writer with active := [] }) [] hc rfl ha hk launched_nil

theorem move (hi : InLine h c) (hc : Coherent h c)
    (hn : ∀ stream reason, .input (.response stream (.reset reason)) ∉ x) (hm : Move c x d) :
    InLine (h ++ x) d := by
  rcases hm.advance hc.inOrder (fun a ha => (hc.abandoned a ha).2) with
    ha | ⟨clock, options, request, sink, deadline, room, rfl, rfl⟩
  · have hk := hm.sameSetup
    have hd := hc.advance ha
    cases hm with
    | idle e he =>
        exact hi.still ha hk (Quiet.ofIdle he).launched (.pure _) (by simp) (fun b _ => .inl) hi.alone
    | refuse | wire | sink =>
        exact hi.still ha hk rfl (.pure _) (by simp) (fun b _ => .inl) hi.alone
    | feed | fire =>
        refine hi.still ha hk rfl (.pure _) (by simp) (fun b _ => .inl) ?_
        simpa [Writer.feed, Writer.fire] using hi.alone
    | enroll clock options request sink deadline room =>
        exact hi.enroll hc clock options request sink deadline room
    | receive stream part =>
        have hreset : ∀ reason, part ≠ .reset reason := fun reason he =>
          hn stream reason (he ▸ List.mem_cons_self)
        refine hi.still ha hk (receive_silent hc.inOrder stream part).1
          (Tracker.receive_orderly hi.ordered stream hreset) (fun hx => ?_) (fun b _ hb => ?_) hi.alone
        · exact List.mem_cons_of_mem _ (by simp [Traffic.receive, hx])
        · rcases hc.inOrder.receive_front hi.ordered stream part with hfront | hlost
          · exact hfront b hb
          · exact Tracker.GoesFromFront.ofNil (hd.desynced hlost) b hb
    | expire now =>
        refine hi.still ha hk (launched_quiet (c.tracker.expire_quiet now))
          (Tracker.expire_orderly hi.ordered now) Happening.action_mem_ofActions.2
          (fun b _ hb => ?_) hi.alone
        exact front_of_same hd (Tracker.expire_ordered hi.ordered now) b hb
    | write clock gone wrote => exact hi.write hc wrote
  · exact hi.enroll hc clock options request sink deadline room

end InLine

theorem Reached.inLine (hr : Reached h c) (hb : c.tracker.binding = .ordered)
    (hn : ∀ stream reason, .input (.response stream (.reset reason)) ∉ h) : InLine h c := by
  induction hr with
  | fresh quiet ceiling encoder timer => exact .fresh quiet ceiling encoder timer hb
  | move hr hm ih =>
      simp only [List.mem_append, not_or] at hn
      exact (ih (hm.sameSetup.binding.symm.trans hb) fun stream reason => (hn stream reason).1).move
        hr.coherent (fun stream reason => (hn stream reason).2) hm

end Traffic

end HttpSession
