import HttpSession.Proofs.Pipeline.Order
import HttpSession.Proofs.Session.Turn

/-! What becomes of a pipeline on which a request was given up half way. -/

namespace HttpSession

open Happening (ofActions)

def Silent (h : List Happening) : Prop := ∀ octets ok, .action (.call (.write octets ok)) ∉ h

namespace Silent

variable {h x : List Happening}

theorem nil : Silent [] := fun _ _ => List.not_mem_nil

theorem append (hh : Silent h) (hx : Silent x) : Silent (h ++ x) := fun octets ok hm =>
  (List.mem_append.1 hm).elim (hh octets ok) (hx octets ok)

theorem right (hh : Silent (h ++ x)) : Silent x := fun octets ok hm =>
  hh octets ok (List.mem_append_right _ hm)

theorem left (hh : Silent (h ++ x)) : Silent h := fun octets ok hm =>
  hh octets ok (List.mem_append_left _ hm)

theorem ofQuiet (hq : Quiet h) : Silent h := fun octets ok hm => by
  simpa [Action.isQuiet, Action.isIdle] using hq _ hm

theorem ofActions {actions : List Action} (hq : ∀ a ∈ actions, a.isQuiet = true) :
    Silent (ofActions actions) :=
  ofQuiet fun a ha => hq a (Happening.action_mem_ofActions.1 ha)

theorem input {i : Input} (hh : Silent h) : Silent (.input i :: h) := fun octets ok hm =>
  hh octets ok (by simpa using hm)

end Silent

namespace Tracker

variable {t : Tracker}

theorem receive_of_nil (hb : t.binding = .ordered) (hp : t.pending = []) (stream : Option StreamId)
    (part : Part) :
    (t.receive stream part).value.tracker = t ∧ (t.receive stream part).actions = [] := by
  unfold receive
  split
  · exact ⟨rfl, rfl⟩
  · simp [route, hb, hp]

theorem expire_of_nil (hp : t.pending = []) (now : Instant) : t.expire now = ⟨t, []⟩ := by
  simp [expire, hp]

end Tracker

theorem Writer.abandon_active {w : Writer} {seq : Nat} {reset : Bool} (alone : w.active.length ≤ 1)
    (hq : seq ∉ w.queue.map Upload.seq) :
    seq ∉ (w.abandon seq reset).1.active.map InFlight.seq := by
  have hnone : w.queue.any (·.seq == seq) = false := by simpa using hq
  have hactive : (w.abandon seq reset).1.active = w.active.eraseP (·.seq == seq) := by
    unfold abandon
    simp only [hnone, Bool.false_eq_true, if_false]
    split <;> rfl
  rw [hactive]
  match w.active, alone with
  | [], _ => simp
  | [f], _ =>
      by_cases hf : f.seq = seq
      · simp [hf]
      · simpa [hf] using Ne.symm hf

namespace Traffic

variable {c d : Traffic} {h x : List Happening}

structure IsMute (c : Traffic) : Prop where
  ordered : c.tracker.binding = .ordered
  full : c.hasRoom = false
  pending : c.tracker.pending = []
  alone : c.writer.active.length ≤ 1
  given : ∀ f ∈ c.flying, ∃ a ∈ c.tracker.abandoned, a.seq = f
  quiet : ∀ a ∈ c.tracker.abandoned, a.reset = false

namespace IsMute

theorem unwanted (hm : c.IsMute) {gone : Nat → Bool} {seq : Nat} :
    c.tracker.isCanceled gone seq = true := by
  simp [Tracker.isCanceled, Tracker.find?, hm.pending]

theorem grounded (hm : c.IsMute) (stopped : c.tracker.abandoned = []) : c.writer.active = [] := by
  rw [← List.map_eq_nil_iff (f := InFlight.seq), List.eq_nil_iff_forall_not_mem]
  intro f hf
  obtain ⟨a, ha, -⟩ := hm.given f hf
  simp [stopped] at ha

theorem keep (hm : c.IsMute) (ht : d.tracker = c.tracker) (hd : d.dispatched = c.dispatched)
    (hk : d.ceiling = c.ceiling) (hf : d.flying = c.flying) : d.IsMute where
  ordered := ht ▸ hm.ordered
  full := by
    have := hm.full
    rwa [hasRoom, ← ht, ← hd, ← hk] at this
  pending := ht ▸ hm.pending
  alone := by
    have := congrArg List.length hf
    simp only [flying, List.length_map] at this
    exact this ▸ hm.alone
  given := by
    rw [hf, ht]
    exact hm.given
  quiet := ht ▸ hm.quiet

theorem write (hc : Coherent h c) (hm : c.IsMute) {clock : Clock} {gone : Nat → Bool}
    (hw : Write clock gone c x d) : d.IsMute ∧ Silent x := by
  cases hw with
  | stop a rest given =>
      have hin : ∀ b ∈ rest, b ∈ c.tracker.abandoned := fun b hb => given ▸ List.mem_cons_of_mem a hb
      rw [c.writer.abandon_silent _ (hm.quiet a (given ▸ List.mem_cons_self))]
      refine ⟨⟨hm.ordered, hm.full, hm.pending, ?_, fun f hf => ?_, fun b hb => hm.quiet b (hin b hb)⟩,
        .nil⟩
      · exact Nat.le_trans (c.writer.abandon_active_sublist _ _).length_le hm.alone
      · have hflying := ((c.writer.abandon_active_sublist _ _).map _).subset hf
        obtain ⟨b, hb, rfl⟩ := hm.given f hflying
        rcases List.mem_cons.1 (given ▸ hb) with rfl | hb
        · refine absurd hf (Writer.abandon_active hm.alone fun hq => ?_)
          exact absurd rfl (Nat.ne_of_lt
            ((List.pairwise_append.1 hc.lines).2.2 _ (hc.flying.subset hflying) _ hq))
        · exact ⟨b, hb, rfl⟩
  | skip u rest stopped next free canceled =>
      have hp : (c.tracker.forget u.seq).value.pending = [] :=
        (c.tracker.forget_wanes u.seq).pending_nil hm.pending
      exact ⟨⟨hm.ordered, hm.full, hp, hm.alone, hm.given, hm.quiet⟩,
        .ofActions (c.tracker.forget_quiet u.seq)⟩
  | launch u rest sent stopped next free wanted put ok => simp [hm.unwanted] at wanted
  | miss u rest sent fault stopped next free wanted put failed => simp [hm.unwanted] at wanted
  | proceed _ _ _ _ _ _ stopped flight | stall _ _ _ stopped flight
  | complete _ _ _ _ _ stopped flight | lose _ _ _ _ _ _ stopped flight
  | breakOff _ _ _ _ stopped flight => simp [hm.grounded stopped] at flight

theorem move (hc : Coherent h c) (hm : c.IsMute) (hv : Move c x d) : d.IsMute ∧ Silent x := by
  cases hv with
  | idle e he => exact ⟨hm, .ofQuiet (.ofIdle he)⟩
  | enroll clock options request sink deadline room => simp [hm.full] at room
  | refuse clock options request sink full =>
      have hq : ∀ a ∈ [Action.answer sink (.failed Fault.closedSession)], a.isQuiet = true := by
        simp [Action.isQuiet]
      exact ⟨hm, .input (.ofActions hq)⟩
  | receive stream part =>
      obtain ⟨ht, ha⟩ := Tracker.receive_of_nil hm.ordered hm.pending stream part
      refine ⟨hm.keep ht rfl rfl rfl, .input (.ofActions fun a hmem => ?_)⟩
      simp only [Traffic.receive, ha, List.nil_append] at hmem
      split at hmem
      · obtain rfl := List.mem_singleton.1 hmem
        rfl
      · simp at hmem
  | expire now =>
      rw [Tracker.expire_of_nil hm.pending]
      exact ⟨hm.keep rfl rfl rfl rfl, .nil⟩
  | wire f => exact ⟨hm.keep rfl rfl rfl rfl, .input .nil⟩
  | sink f => exact ⟨hm.keep rfl rfl rfl rfl, .input .nil⟩
  | feed source frames ended =>
      exact ⟨hm.keep rfl rfl rfl (by simp [Writer.feed, flying, Function.comp_def]), .input .nil⟩
  | fire =>
      exact ⟨hm.keep rfl rfl rfl (by simp [Writer.fire, flying, Function.comp_def]), .input .nil⟩
  | write clock gone wrote => exact hm.write hc wrote

theorem path (hr : Reached h c) (hm : c.IsMute) (hp : Path Move c x d) : d.IsMute ∧ Silent x := by
  induction hp with
  | refl => exact ⟨hm, .nil⟩
  | snoc hq hv ih =>
      obtain ⟨hmute, hx⟩ := ih.1.move (hr.path hq).coherent hv
      exact ⟨hmute, ih.2.append hx⟩

end IsMute

theorem InLine.isMute (hi : InLine h c) (hc : Coherent h c) (hs : c.tracker.desynced = true)
    (hf : ∀ f ∈ c.flying, ∃ a ∈ c.tracker.abandoned, a.seq = f) : c.IsMute where
  ordered := hi.ordered
  full := by simp [hasRoom, Tracker.isClosing, hs]
  pending := hc.desynced hs
  alone := hi.alone
  given := hf
  quiet a ha := (hi.poisoned a ha).2

theorem InLine.isMute_of_abandoned (hi : InLine h c) (hc : Coherent h c) {a : Abandoned}
    (ha : a ∈ c.tracker.abandoned) (hf : a.seq ∈ c.flying) : c.IsMute := by
  refine hi.isMute hc (hi.poisoned a ha).1 fun f hmem => ⟨a, ha, ?_⟩
  have halone : c.flying.length ≤ 1 := by simpa [flying] using hi.alone
  obtain ⟨g, hg⟩ := List.length_eq_one_iff.1
    (Nat.le_antisymm halone (List.length_pos_of_mem hf))
  rw [hg, List.mem_singleton] at hf hmem
  rw [hf, hmem]

end Traffic

namespace Action

def isReset : Action → Bool
  | .encode _ .reset _ => true
  | _ => false

theorem not_isReset_of_isQuiet {a : Action} (h : a.isQuiet = true) : ¬a.isReset = true := by
  cases a with
  | encode => simp [isQuiet, isIdle] at h
  | _ => simp [isReset]

end Action

namespace Emission

theorem not_isReset (sent : Emission) (seq : Nat) {piece : Piece} (hp : piece ≠ .reset) :
    ∀ a ∈ sent.actions seq piece, ¬a.isReset = true := by
  intro a ha
  rcases List.mem_append.1 ha with ha | ha
  · obtain ⟨c, -, rfl⟩ := List.mem_map.1 ha
    simp [Action.isReset]
  · obtain rfl := List.mem_singleton.1 ha
    cases piece <;> simp_all [Action.isReset]

end Emission

namespace Traffic

variable {c d : Traffic} {h x : List Happening} {clock : Clock} {gone : Nat → Bool}

theorem ofActions_ne_reset {actions : List Action} (hn : ∀ a ∈ actions, ¬a.isReset = true)
    {before behind : List Happening} {seq : Nat} {ok : Bool} :
    before ++ .action (.encode seq .reset ok) :: behind ≠ ofActions actions := by
  intro heq
  obtain ⟨xs, ys, rfl, -, -⟩ := Happening.ofActions_eq_append_cons heq.symm
  exact hn (.encode seq .reset ok) (by simp) rfl

theorem giveUp_split {seq s : Nat} {fault : Fault} {ok : Bool} {first : List Action}
    {before behind : List Happening} (hfirst : ∀ a ∈ first, ¬a.isReset = true)
    (h : before ++ .action (.encode seq .reset ok) :: behind
      = ofActions (first ++ (c.giveUp s fault).actions)) :
    s = seq ∧ behind = ofActions (c.tracker.fail seq fault).actions := by
  obtain ⟨xs, ys, hsplit, -, rfl⟩ := Happening.ofActions_eq_append_cons h.symm
  have hshape : first ++ (c.giveUp s fault).actions
      = (first ++ (c.writer.encoder.put s .reset).calls.map .call)
        ++ .encode s .reset (c.writer.encoder.put s .reset).fault.isNone
          :: (c.tracker.fail s fault).actions := by
    simp [giveUp, track, encode, Emission.actions]
  have hbefore : ∀ a ∈ first ++ (c.writer.encoder.put s .reset).calls.map .call,
      ¬a.isReset = true := by
    intro a ha
    rcases List.mem_append.1 ha with ha | ha
    · exact hfirst a ha
    · obtain ⟨call, -, rfl⟩ := List.mem_map.1 ha
      simp [Action.isReset]
  rw [hshape] at hsplit
  obtain ⟨-, hmark, rfl⟩ := eq_of_append_eq_append (p := fun a => a.isReset = true) hbefore
    (fun a ha => Action.not_isReset_of_isQuiet (Tracker.fail_quiet _ _ _ a ha)) rfl hsplit
  obtain ⟨rfl, -⟩ := Action.encode.inj hmark
  exact ⟨rfl, rfl⟩

theorem InLine.write_giveUp (hi : InLine h c) {before behind : List Happening} {seq : Nat} {ok : Bool}
    (hw : Write clock gone c (before ++ .action (.encode seq .reset ok) :: behind) d) :
    ∃ fault, d.tracker = (c.tracker.fail seq fault).value ∧ d.writer.active = []
      ∧ behind = ofActions (c.tracker.fail seq fault).actions
      ∧ launched (before ++ .action (.encode seq .reset ok) :: behind) = []
      ∧ (seq ∈ c.flying ∨ seq ∈ c.tracker.seqs) := by
  generalize hx : before ++ .action (.encode seq .reset ok) :: behind = x at hw
  cases hw with
  | stop a rest given =>
      rw [c.writer.abandon_silent _ (hi.poisoned a (given ▸ List.mem_cons_self)).2] at hx
      simp at hx
  | skip u rest stopped next free canceled =>
      exact absurd hx (ofActions_ne_reset fun a ha =>
        Action.not_isReset_of_isQuiet (c.tracker.forget_quiet u.seq a ha))
  | launch u rest sent stopped next free wanted put ok' =>
      exact absurd hx (ofActions_ne_reset (sent.not_isReset _ (by simp)))
  | proceed f before' behind' octets rest sent stopped flight frame put ok' =>
      exact absurd hx (ofActions_ne_reset (sent.not_isReset _ (by simp)))
  | stall => simp at hx
  | complete f before' behind' piece sent stopped flight final put ok' =>
      refine absurd hx (ofActions_ne_reset (sent.not_isReset _ fun he => ?_))
      simp [he, Piece.isFinal] at final
  | miss u rest sent fault stopped next free wanted put failed =>
      obtain ⟨rfl, hrest⟩ := giveUp_split (c := (c.queue rest).encode sent.encoder)
        (sent.not_isReset _ (by simp)) hx
      exact ⟨fault, rfl, hi.active_eq_nil free, hrest, by simp [sent.launched_of_fault failed],
        .inr (Tracker.mem_seqs_of_wanted wanted)⟩
  | lose f before' behind' piece sent fault stopped flight body put failed =>
      obtain ⟨rfl, rfl⟩ := hi.flight_eq flight
      obtain ⟨rfl, hrest⟩ := giveUp_split (c := (c.encode sent.encoder).fly [])
        (sent.not_isReset _ fun he => by simp [he, Piece.isBody] at body) hx
      exact ⟨fault, rfl, rfl, hrest, by simp [sent.launched_of_fault failed],
        .inl (by simp [flying, flight])⟩
  | breakOff f before' behind' fault stopped flight =>
      obtain ⟨rfl, rfl⟩ := hi.flight_eq flight
      obtain ⟨rfl, hrest⟩ := giveUp_split (c := c.fly []) (List.forall_mem_nil _) hx
      exact ⟨fault, rfl, rfl, hrest, launched_giveUp _ _ _, .inl (by simp [flying, flight])⟩

theorem InLine.path_write (hr : Reached h c) (hi : InLine h c) (hp : Path (Write clock gone) c x d) :
    Reached (h ++ x) d ∧ InLine (h ++ x) d ∧ d.tracker.seqs ⊆ c.tracker.seqs
      ∧ d.dispatched = c.dispatched ∧ d.ceiling = c.ceiling := by
  induction hp with
  | refl => exact ⟨by simpa using hr, by simpa using hi, List.Subset.refl _, rfl, rfl⟩
  | snoc _ hw ih =>
      obtain ⟨hr', hi', hsub, hd, hk⟩ := ih
      have ha := hw.advance fun a ha => (hr'.coherent.abandoned a ha).2
      rw [← List.append_assoc]
      exact ⟨hr'.move (.write _ _ hw), hi'.write hr'.coherent hw,
        List.Subset.trans ha.tracker.seqs.subset hsub, ha.dispatched.trans hd,
        hw.sameSetup.ceiling.trans hk⟩

theorem InLine.flying_at_end (hr : Reached h c) (hi : InLine h c)
    (hp : Path (Write clock gone) c x d) {seq : Nat} (hf : seq ∈ d.flying) :
    d.tracker.pending = c.tracker.pending ∧ d.tracker.desynced = c.tracker.desynced
      ∨ seq ∈ d.tracker.seqs ∧ seq ∈ c.tracker.seqs := by
  induction hp with
  | refl => exact .inl ⟨rfl, rfl⟩
  | @snoc c' d x y hp hw ih =>
      obtain ⟨hr', hi', hsub, -⟩ := hi.path_write hr hp
      have grounded : d.writer.active = [] → False := fun he => by simp [flying, he] at hf
      cases hw with
      | stop a rest given => exact ih (((c'.writer.abandon_active_sublist _ _).map _).subset hf)
      | skip u rest stopped next free canceled => exact (grounded (hi'.active_eq_nil free)).elim
      | launch u rest sent stopped next free wanted put ok =>
          have hactive := hi'.active_eq_nil free
          simp only [flying, fly, hactive, List.nil_append] at hf
          obtain rfl := List.mem_singleton.1 ((c'.writer.started_seqs clock u).subset hf)
          have hseq := Tracker.mem_seqs_of_wanted wanted
          exact .inr ⟨hseq, hsub hseq⟩
      | miss u rest sent fault stopped next free wanted put failed =>
          exact (grounded (hi'.active_eq_nil free)).elim
      | proceed f before behind octets rest sent stopped flight frame put ok =>
          exact ih (by simpa [flying, fly, flight] using hf)
      | stall f before behind stopped flight =>
          exact ih (by simpa [flying, fly, flight] using hf)
      | complete f before behind piece sent stopped flight final put ok =>
          obtain ⟨rfl, rfl⟩ := hi'.flight_eq flight
          exact (grounded rfl).elim
      | lose f before behind piece sent fault stopped flight body put failed =>
          obtain ⟨rfl, rfl⟩ := hi'.flight_eq flight
          exact (grounded rfl).elim
      | breakOff f before behind fault stopped flight =>
          obtain ⟨rfl, rfl⟩ := hi'.flight_eq flight
          exact (grounded rfl).elim

def IsSettled (h : List Happening) (c : Traffic) : Prop := ∀ a ∈ launched h, a ∉ c.tracker.seqs

theorem InLine.isSettled (hi : InLine h c) {seq : Nat} (hc : Coherent h c) (hf : seq ∈ c.flying)
    (hs : seq ∉ c.tracker.seqs) : IsSettled h c := by
  intro a ha hmem
  rcases Nat.lt_or_eq_of_le (hi.last seq hf a ha) with hlt | rfl
  · exact hs (hi.answered a ha hmem seq (hc.flying.subset hf) hlt)
  · exact hs hmem

structure Rests (gone : Nat → Bool) (c : Traffic) (x : List Happening) (d : Traffic) : Prop where
  grounded : d.writer.active = []
  unlaunched : launched x = []
  awaited : d.tracker.awaited ⊆ c.tracker.awaited
  desynced : d.tracker.desynced = c.tracker.desynced
  dispatched : d.dispatched = c.dispatched
  ceiling : d.ceiling = c.ceiling
  abandoned : d.tracker.abandoned ⊆ c.tracker.abandoned
  gone : ∀ p ∈ c.tracker.pending, p ∈ d.tracker.pending ∨ gone p.sink = true

namespace Rests

theorem refl (hc : c.writer.active = []) : Rests gone c [] c :=
  ⟨hc, rfl, List.Subset.refl _, rfl, rfl, rfl, List.Subset.refl _, fun _ => .inl⟩

theorem trans {e : Traffic} {y : List Happening} (hd : Rests gone c x d) (he : Rests gone d y e) :
    Rests gone c (x ++ y) e where
  grounded := he.grounded
  unlaunched := by rw [launched_append, hd.unlaunched, he.unlaunched, List.append_nil]
  awaited := List.Subset.trans he.awaited hd.awaited
  desynced := he.desynced.trans hd.desynced
  dispatched := he.dispatched.trans hd.dispatched
  ceiling := he.ceiling.trans hd.ceiling
  abandoned := List.Subset.trans he.abandoned hd.abandoned
  gone p hp := (hd.gone p hp).elim (he.gone p) .inr

end Rests

end Traffic

theorem Tracker.exists_waiting {t : Tracker} {gone : Nat → Bool} {seq : Nat}
    (h : t.isCanceled gone seq = false) : ∃ p ∈ t.pending, gone p.sink = false := by
  unfold isCanceled at h
  split at h
  · exact ⟨_, (find?_eq_some ‹_›).1, h⟩
  · simp at h

theorem Encoder.head_not_silent {encoder : Encoder} (hb : encoder.binding = .ordered) (seq : Nat)
    (head : Head) (last : Bool) :
    ¬Silent (ofActions ((encoder.put seq (.headers head last)).actions seq (.headers head last))) := by
  intro hs
  cases encoder with
  | http2 => simp [binding] at hb
  | http1 framing wire =>
      obtain ⟨ok, hwrite⟩ : ∃ ok, .write (Http1.headBlock head last) ok
          ∈ ((Encoder.http1 framing wire).put seq (.headers head last)).calls := by
        simp only [put, headers, ofWrites, Http1.writeAll]
        split <;> simp
      exact hs _ ok (by simpa [Emission.actions] using hwrite)

namespace Traffic

variable {c d : Traffic} {h x : List Happening} {clock : Clock} {gone : Nat → Bool}

theorem InLine.write_grounded (hc : Coherent h c) (hi : InLine h c) (hg : c.writer.active = [])
    (hw : Write clock gone c x d) :
    (Silent x ∧ Rests gone c x d)
      ∨ ¬Silent x ∧ ∃ p ∈ c.tracker.pending, gone p.sink = false := by
  have hk := hw.sameSetup
  have flight : ∀ {f : InFlight} {before behind : List InFlight},
      c.writer.active ≠ before ++ f :: behind := by simp [hg]
  cases hw with
  | stop a rest given =>
      rw [c.writer.abandon_silent _ (hi.poisoned a (given ▸ List.mem_cons_self)).2]
      refine .inl ⟨.nil, ?_, rfl, List.Subset.refl _, rfl, rfl, rfl, ?_, fun _ => .inl⟩
      · exact List.sublist_nil.1 (hg ▸ c.writer.abandon_active_sublist _ _)
      · exact given ▸ List.subset_cons_self a rest
  | skip u rest stopped next free canceled =>
      have hq := c.tracker.forget_quiet u.seq
      have hw := c.tracker.forget_wanes u.seq
      refine .inl ⟨.ofActions hq, hg, launched_quiet hq, hw.awaited.subset, rfl, rfl, rfl,
        List.Subset.refl _, fun p hp => ?_⟩
      by_cases hseq : p.seq = u.seq
      · refine .inr ?_
        rw [← hseq, Tracker.isCanceled, hc.inOrder.find?_eq hp] at canceled
        exact canceled
      · exact .inl (List.mem_filter.2 ⟨hp, by simpa using hseq⟩)
  | launch u rest sent stopped next free wanted put ok =>
      exact .inr ⟨put ▸ Encoder.head_not_silent hi.http1 _ _ _, Tracker.exists_waiting wanted⟩
  | miss u rest sent fault stopped next free wanted put failed =>
      refine .inr ⟨fun hs => ?_, Tracker.exists_waiting wanted⟩
      rw [Happening.ofActions_append, ← put] at hs
      exact Encoder.head_not_silent hi.http1 _ _ _ hs.left
  | proceed _ _ _ _ _ _ stopped hf | stall _ _ _ stopped hf | complete _ _ _ _ _ stopped hf
  | lose _ _ _ _ _ _ stopped hf | breakOff _ _ _ _ stopped hf => exact absurd hf flight

theorem InLine.path_grounded (hr : Reached h c) (hi : InLine h c) (hg : c.writer.active = [])
    (hp : Path (Write clock gone) c x d) :
    (Silent x ∧ Rests gone c x d)
      ∨ ¬Silent x ∧ ∃ p ∈ c.tracker.pending, gone p.sink = false := by
  induction hp with
  | refl => exact .inl ⟨.nil, .refl hg⟩
  | snoc hp hw ih =>
      obtain ⟨hr', hi', -⟩ := hi.path_write hr hp
      rcases ih with ⟨hsilent, hrest⟩ | ⟨hloud, hwaits⟩
      · rcases hi'.write_grounded hr'.coherent hrest.grounded hw with
          ⟨hsilent', hrest'⟩ | ⟨hloud, p, hp, hwaits⟩
        · exact .inl ⟨hsilent.append hsilent', hrest.trans hrest'⟩
        · obtain ⟨q, hq, he⟩ := List.mem_map.1 (hrest.awaited (Tracker.mem_awaited hp))
          refine .inr ⟨fun hs => hloud hs.right, q, hq, ?_⟩
          rw [(Prod.mk.inj he).2]
          exact hwaits
      · exact .inr ⟨fun hs => hloud hs.left, hwaits⟩

theorem InLine.pending_eq_nil (hr : Reached h c) (hi : InLine h c) (hs : IsSettled h c)
    (hp : Path (Write clock gone) c x d) (hrest : Rests gone c x d) (hend : d.writer.IsAtRest) :
    d.tracker.pending = [] := by
  obtain ⟨hr', hi', hsub, -⟩ := hi.path_write hr hp
  have hqueue : d.queued = [] := by
    rcases hend with hend | hend
    · simp [queued, hend]
    · simp [Writer.mayStart, hrest.grounded] at hend
  rw [← List.map_eq_nil_iff (f := Pending.seq), List.eq_nil_iff_forall_not_mem]
  intro seq hseq
  have hplaced := hr'.coherent.placed seq hseq
  rw [hqueue, List.append_nil, launched_append, hrest.unlaunched, List.append_nil] at hplaced
  exact hs seq hplaced (hsub hseq)

theorem InLine.mute_at_rest (hr : Reached h c) (hi : InLine h c) (hs : IsSettled h c)
    (hg : c.writer.active = []) (hp : Path (Write clock gone) c x d) (hend : d.writer.IsAtRest)
    (hfull : c.ceiling ≤ c.dispatched) (hgone : ∀ p ∈ c.tracker.pending, gone p.sink = true) :
    d.IsMute ∧ Silent x := by
  obtain ⟨-, hi', -⟩ := hi.path_write hr hp
  rcases hi.path_grounded hr hg hp with ⟨hsilent, hrest⟩ | ⟨-, p, hp, hwaits⟩
  · have hle : d.ceiling ≤ d.dispatched := by
      rw [hrest.ceiling, hrest.dispatched]
      exact hfull
    have hmute : d.IsMute := {
      ordered := hi'.ordered
      full := by simp [hasRoom, Nat.not_lt.2 hle]
      pending := hi.pending_eq_nil hr hs hp hrest hend
      alone := hi'.alone
      given := by simp [flying, hrest.grounded]
      quiet := fun a ha => (hi'.poisoned a ha).2 }
    exact ⟨hmute, hsilent⟩
  · simp [hgone p hp] at hwaits

theorem InLine.full_at_rest (hr : Reached h c) (hi : InLine h c) (hs : IsSettled h c)
    (hg : c.writer.active = []) (hp : Path (Write clock gone) c x d) (hend : d.writer.IsAtRest)
    (hsync : c.tracker.desynced = false) (hroom : d.hasRoom = false) (hsilent : Silent x) :
    c.ceiling ≤ c.dispatched ∧ ∀ p ∈ c.tracker.pending, gone p.sink = true := by
  rcases hi.path_grounded hr hg hp with ⟨-, hrest⟩ | ⟨hloud, -⟩
  · have hnil := hi.pending_eq_nil hr hs hp hrest hend
    constructor
    · simpa [hasRoom, Tracker.isClosing, hrest.desynced, hrest.dispatched, hrest.ceiling, hsync]
        using hroom
    · intro p hmem
      exact (hrest.gone p hmem).resolve_left (by simp [hnil])
  · exact absurd hsilent hloud

/-- Whether the loss of a request costs the pipeline: its response is still awaited, or the pipeline
is out of step already, or it has no number left and nobody waits for what it still has. -/
def Minds (c : Traffic) (gone : Nat → Bool) (seq : Nat) : Prop :=
  seq ∈ c.tracker.seqs ∨ c.tracker.desynced = true
    ∨ c.ceiling ≤ c.dispatched ∧ ∀ p ∈ c.tracker.pending, gone p.sink = true

theorem InLine.after_giveUp (hr : Reached h c) (hi : InLine h c) {before behind rest : List Happening}
    {seq : Nat} {ok : Bool} {e : Traffic}
    (hw : Write clock gone c (before ++ .action (.encode seq .reset ok) :: behind) d)
    (hp : Path (Write clock gone) d rest e) (hend : e.writer.IsAtRest) :
    (c.Minds gone seq → e.IsMute ∧ Silent (behind ++ rest))
      ∧ (e.hasRoom = false → Silent (behind ++ rest) → c.Minds gone seq) := by
  have hc := hr.coherent
  have ha := hw.advance fun a ha => (hc.abandoned a ha).2
  have hr' := hr.move (.write _ _ hw)
  have hi' := hi.write hc hw
  obtain ⟨fault, ht, hactive, rfl, hl, hknown⟩ := hi.write_giveUp hw
  have hquiet := Silent.ofActions (c.tracker.fail_quiet seq fault)
  by_cases hlost : seq ∈ c.tracker.seqs ∨ c.tracker.desynced = true
  · -- The tracker gives the pipeline up, if it has not done so before.
    have hd : d.tracker.desynced = true := by
      rw [ht]
      rcases Tracker.fail_ordered hi.ordered seq fault with ⟨hsame, hout⟩ | hd
      · rw [hsame]
        exact hlost.resolve_left hout
      · exact hd
    have hmute : d.IsMute := hi'.isMute hr'.coherent hd (by simp [flying, hactive])
    obtain ⟨hmute', hsilent⟩ := hmute.path hr' (hp.mono (.write _ _))
    exact ⟨fun _ => ⟨hmute', hquiet.append hsilent⟩, fun _ _ => hlost.imp_right .inl⟩
  · -- The tracker does not notice, and the turn goes on with the queue.
    rw [not_or, Bool.not_eq_true] at hlost
    obtain ⟨hout, hsync⟩ := hlost
    have hsame : d.tracker = c.tracker := by
      rw [ht, Tracker.fail_of_notMem hi.ordered hout]
    have hsettled : IsSettled (h ++ (before ++ .action (.encode seq .reset ok)
        :: ofActions (c.tracker.fail seq fault).actions)) d := by
      rw [IsSettled, launched_append, hl, List.append_nil, hsame]
      exact hi.isSettled hc (hknown.resolve_right hout) hout
    have hmute := hi'.mute_at_rest hr' hsettled hactive hp hend
    have hfull := hi'.full_at_rest hr' hsettled hactive hp hend
    rw [hsame, ha.dispatched, hw.sameSetup.ceiling] at hmute hfull
    constructor
    · rintro (hin | hlost | ⟨hleft, hgone⟩)
      · exact absurd hin hout
      · simp [hsync] at hlost
      · exact (hmute hleft hgone).imp_right hquiet.append
    · exact fun hroom hsilent => .inr (.inr (hfull hsync hroom hsilent.right))

theorem InLine.minds_iff (hr : Reached h c) (hi : InLine h c) {seq : Nat}
    (hp : Path (Write clock gone) c x d) (hknown : seq ∈ d.flying ∨ seq ∈ d.tracker.seqs) :
    d.Minds gone seq ↔ c.Minds gone seq := by
  obtain ⟨-, -, hsub, hdispatched, hceiling⟩ := hi.path_write hr hp
  by_cases hseq : seq ∈ d.tracker.seqs
  · exact ⟨fun _ => .inl (hsub hseq), fun _ => .inl hseq⟩
  · rcases hi.flying_at_end hr hp (hknown.resolve_right hseq) with ⟨hpending, hdesynced⟩ | ⟨hin, -⟩
    · simp only [Minds, Tracker.seqs, hpending, hdesynced, hdispatched, hceiling]
    · exact absurd hin hseq

theorem InLine.turn_giveUp (hr : Reached h c) (hi : InLine h c) {before behind : List Happening}
    {seq : Nat} {ok : Bool}
    (hp : Path (Write clock gone) c (before ++ .action (.encode seq .reset ok) :: behind) d)
    (hend : d.writer.IsAtRest) :
    0 < d.dispatched ∧ (c.Minds gone seq → d.IsMute ∧ Silent behind)
      ∧ (d.hasRoom = false → Silent behind → c.Minds gone seq) := by
  obtain ⟨-, -, -, hdispatched, -⟩ := hi.path_write hr hp
  obtain ⟨c₁, c₂, a₁, a₂, b₁, b₂, rfl, rfl, hfirst, hstep, hlast⟩ := hp.split
  obtain ⟨hr₁, hi₁, -, hsame, -⟩ := hi.path_write hr hfirst
  obtain ⟨-, -, -, -, -, hknown⟩ := hi₁.write_giveUp hstep
  have hnumber : 0 < seq ∧ seq ≤ c₁.dispatched := by
    refine hr₁.coherent.taken seq ?_
    rcases hknown with hf | hs
    · exact List.mem_append_left _ (hr₁.coherent.flying.subset hf)
    · exact hr₁.coherent.placed seq hs
  rw [← hi.minds_iff hr hfirst hknown]
  exact ⟨by omega, hi₁.after_giveUp hr₁ hstep hlast hend⟩

end Traffic

end HttpSession
