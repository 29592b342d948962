import HttpSession.Proofs.Pipeline.Peer
import HttpSession.Proofs.Session.Coherence

/-! On a pipeline the requests that are awaited and written are those that the server has yet to
answer. -/

namespace HttpSession

open Happening (ofActions)

namespace Tracker

variable {t : Tracker} {p : Pending} {tail : List Pending}

theorem desync_desynced (t : Tracker) : t.desync.value.desynced = true := by
  unfold desync
  split
  · assumption
  · rfl

theorem afterAbandon_desynced (hb : t.binding = .ordered) (seqs : List Nat) :
    (t.afterAbandon seqs).value.desynced = true := by
  simp only [afterAbandon, hb]
  exact desync_desynced _

theorem abandon_ordered (hb : t.binding = .ordered) (seq : Nat) (fault : Fault) :
    (t.abandon seq fault).value = t ∧ seq ∉ t.seqs ∨ (t.abandon seq fault).value.desynced = true := by
  unfold abandon
  split
  · exact .inl ⟨rfl, find?_eq_none.1 ‹_›⟩
  · exact .inr (afterAbandon_desynced (t := t.erase seq) hb [seq])

theorem fail_ordered (hb : t.binding = .ordered) (seq : Nat) (fault : Fault) :
    (t.fail seq fault).value = t ∧ seq ∉ t.seqs ∨ (t.fail seq fault).value.desynced = true := by
  simp only [fail, hb]
  exact abandon_ordered hb seq fault

theorem fail_of_notMem (hb : t.binding = .ordered) {seq : Nat} {fault : Fault} (h : seq ∉ t.seqs) :
    t.fail seq fault = ⟨t, []⟩ := by
  simp [fail, hb, abandon, find?_eq_none.2 h]

theorem expire_ordered (hb : t.binding = .ordered) (now : Instant) :
    (t.expire now).value = t ∨ (t.expire now).value.desynced = true := by
  unfold expire
  dsimp only
  split
  · exact .inl rfl
  · exact .inr (afterAbandon_desynced
      (t := { t with pending := t.pending.filter fun p => !p.isDue now }) hb _)

theorem InOrder.seq_ne (h : t.InOrder) (hp : t.pending = p :: tail) : ∀ q ∈ tail, q.seq ≠ p.seq := by
  rw [InOrder, seqs, hp, List.map_cons, List.pairwise_cons] at h
  exact fun q hq => Nat.ne_of_gt (h.1 q.seq (List.mem_map_of_mem hq))

theorem InOrder.update_first (h : t.InOrder) (hp : t.pending = p :: tail) (f : Pending → Pending) :
    (t.update p.seq f).pending = f p :: tail := by
  have htail : tail.map (fun q => if q.seq = p.seq then f q else q) = tail := by
    rw [List.map_congr_left (g := id) fun q hq => by simp [h.seq_ne hp q hq], List.map_id]
  simp [update, hp, htail]

theorem InOrder.erase_first (h : t.InOrder) (hp : t.pending = p :: tail) :
    (t.erase p.seq).pending = tail := by
  have htail : tail.filter (fun q => q.seq != p.seq) = tail :=
    List.filter_eq_self.2 fun q hq => by simpa using h.seq_ne hp q hq
  simp [erase, hp, htail]

theorem InOrder.find?_first (h : t.InOrder) (hp : t.pending = p :: tail) : t.find? p.seq = some p :=
  h.find?_eq (hp ▸ List.mem_cons_self)

theorem InOrder.receive_first (h : t.InOrder) (hb : t.binding = .ordered) (hs : t.desynced = false)
    (hp : t.pending = p :: tail) (stream : Option StreamId) (part : Part) :
    t.receive stream part = t.receivePart p part := by
  simp [receive, hs, route, hb, hp, h.find?_first hp]

end Tracker

namespace Traffic

def Told : Option Response → List Pending → Prop
  | none, mine => ∀ p ∈ mine, p.IsBlank
  | some _, [] => False
  | some r, p :: rest => p.Holds r ∧ ∀ q ∈ rest, q.IsBlank

theorem Told.concat {draft : Option Response} {mine : List Pending} {p : Pending}
    (ht : Told draft mine) (hp : p.IsBlank) : Told draft (mine ++ [p]) := by
  have hall : ∀ rest : List Pending, (∀ q ∈ rest, q.IsBlank) → ∀ q ∈ rest ++ [p], q.IsBlank :=
    fun rest hr q hq => (List.mem_append.1 hq).elim (hr q) fun he => List.mem_singleton.1 he ▸ hp
  cases draft with
  | none => exact hall mine ht
  | some r => cases mine with
    | nil => exact ht.elim
    | cons m rest => exact ⟨ht.1, hall rest ht.2⟩

/-- The awaited requests in the order of their numbers: first those that the server has yet to answer,
then those that wait to be written. -/
structure Matched (h : List Happening) (peer : Peer) (c : Traffic) : Prop where
  clean : c.tracker.abandoned = []
  written : ∀ seq ∈ peer.waiting, seq ∈ launched h
  pending : ∃ mine later, c.tracker.pending = mine ++ later ∧ mine.map Pending.seq = peer.waiting
    ∧ (∀ p ∈ later, p.IsBlank ∧ p.seq ∈ c.queued) ∧ Told peer.draft mine

/-- A pipeline in step: every response that was delivered is the one that the server gave to that
request, and what is awaited matches what the server has yet to answer. -/
structure InStep (h : List Happening) (peer : Peer) (c : Traffic) : Prop where
  delivered : ∀ sink r, .action (.answer sink (.complete r)) ∈ h →
    ∃ seq, (seq, sink) ∈ enrolled h ∧ (seq, r) ∈ peer.answered
  matched : c.tracker.desynced = false → Matched h peer c

variable {c d : Traffic} {h x : List Happening} {peer next : Peer}

theorem Matched.keep (hm : Matched h peer c) (ha : Advance c x d) (hl : launched x = [])
    (hp : d.tracker.pending = c.tracker.pending) (hd : d.tracker.abandoned = []) :
    Matched (h ++ x) peer d where
  clean := hd
  written seq hs := by
    rw [launched_append]
    exact List.mem_append_left _ (hm.written seq hs)
  pending := by
    obtain ⟨mine, later, hsplit, hmine, hlater, hdraft⟩ := hm.pending
    refine ⟨mine, later, hp.trans hsplit, hmine, fun p hmem => ⟨(hlater p hmem).1, ?_⟩, hdraft⟩
    have hs : p.seq ∈ d.tracker.seqs := Tracker.mem_seqs (by simp [hp, hsplit, hmem])
    simpa [hl] using ha.placed p.seq hs (hlater p hmem).2

theorem Matched.forget (hc : Coherent h c) (hm : Matched h peer c) (ha : Advance c x d)
    (hl : launched x = []) {seq : Nat} (hq : seq ∈ c.queued)
    (hp : d.tracker.pending = c.tracker.pending.filter (·.seq != seq))
    (hd : d.tracker.abandoned = []) : Matched (h ++ x) peer d where
  clean := hd
  written seq hs := by
    rw [launched_append]
    exact List.mem_append_left _ (hm.written seq hs)
  pending := by
    obtain ⟨mine, later, hsplit, hmine, hlater, hdraft⟩ := hm.pending
    have hkeep : mine.filter (·.seq != seq) = mine := by
      refine List.filter_eq_self.2 fun p hmem => ?_
      have hw : p.seq ∈ launched h := hm.written _ (hmine ▸ List.mem_map_of_mem hmem)
      have hlt := (List.pairwise_append.1 hc.lines).2.2 p.seq hw seq hq
      simpa using Nat.ne_of_lt hlt
    rw [hsplit, List.filter_append, hkeep] at hp
    refine ⟨mine, _, hp, hmine, fun p hmem => ?_, hdraft⟩
    obtain ⟨hblank, hin⟩ := hlater p (List.mem_filter.1 hmem).1
    have hs : p.seq ∈ d.tracker.seqs := Tracker.mem_seqs (by simp [hp, hmem])
    exact ⟨hblank, by simpa [hl] using ha.placed p.seq hs hin⟩

theorem Matched.launch (hc : Coherent h c) (hm : Matched h peer c) {u : Upload} {rest : List Upload}
    (next : c.writer.queue = u :: rest) (wanted : u.seq ∈ c.tracker.seqs)
    (hl : launched x = [u.seq]) (ht : d.tracker = c.tracker) (hq : d.writer.queue = rest) :
    Matched (h ++ x) { peer with waiting := peer.waiting ++ [u.seq] } d := by
  obtain ⟨mine, later, hsplit, hmine, hlater, hdraft⟩ := hm.pending
  have hqueued := queued_next next
  obtain ⟨-, hqueue, hbefore⟩ := List.pairwise_append.1 hc.lines
  rw [hqueued] at hqueue hbefore
  have horder := hc.inOrder
  rw [Tracker.InOrder, Tracker.seqs, hsplit, List.map_append, List.pairwise_append] at horder
  -- The queue is in order, so that the request is the first of those that wait.
  obtain ⟨p, behind, rfl, hp⟩ : ∃ p behind, later = p :: behind ∧ p.seq = u.seq := by
    obtain ⟨p, hmem, hp⟩ := List.mem_map.1 wanted
    rw [hsplit, List.mem_append] at hmem
    rcases hmem with hmem | hmem
    · have hw : p.seq ∈ launched h := hm.written _ (hmine ▸ List.mem_map_of_mem hmem)
      exact absurd hp (Nat.ne_of_lt (hbefore p.seq hw u.seq List.mem_cons_self))
    · cases later with
      | nil => simp at hmem
      | cons q behind =>
          refine ⟨q, behind, rfl, ?_⟩
          rcases List.mem_cons.1 hmem with rfl | hmem
          · exact hp
          · have hlt := (List.pairwise_cons.1 horder.2.1).1 p.seq (List.mem_map_of_mem hmem)
            rcases List.mem_cons.1 (hqueued ▸ (hlater q List.mem_cons_self).2) with hq | hq
            · exact hq
            · have := (List.pairwise_cons.1 hqueue).1 q.seq hq
              omega
  refine ⟨by rw [ht, hm.clean], ?_, mine ++ [p], behind, by simp [ht, hsplit], by simp [hmine, hp],
    fun q hmem => ?_, ?_⟩
  · simp only [launched_append, hl, List.mem_append]
    exact fun seq hs => hs.imp (hm.written seq) id
  · obtain ⟨hq', hin⟩ := hlater q (List.mem_cons_of_mem p hmem)
    have hlt := (List.pairwise_cons.1 horder.2.1).1 q.seq (List.mem_map_of_mem hmem)
    rw [hqueued, List.mem_cons] at hin
    refine ⟨hq', ?_⟩
    rw [queued, hq]
    exact hin.resolve_left (by omega)
  · exact hdraft.concat (hlater p List.mem_cons_self).1

theorem Matched.enroll (hc : Coherent h c) (hm : Matched h peer c) (clock : Clock)
    (options : Options) (request : Request) (sink : Nat) (deadline : Option Instant) :
    Matched (h ++ .input (.dispatch clock options request sink)
        :: ofActions (c.enroll options request sink deadline).actions) peer
      (c.enroll options request sink deadline).value := by
  obtain ⟨mine, later, hsplit, hmine, hlater, hdraft⟩ := hm.pending
  have hpending := hc.enroll_pending options request sink deadline
  rw [hsplit, List.append_assoc] at hpending
  refine ⟨by rw [enroll_abandoned, hm.clean], ?_, mine, _, hpending, hmine, fun p hp => ?_, hdraft⟩
  · simpa [launched_enroll] using hm.written
  · rw [enroll_queued, List.mem_append]
    rcases List.mem_append.1 hp with hp | hp
    · exact (hlater p hp).imp_right .inl
    · obtain rfl := List.mem_singleton.1 hp
      exact ⟨⟨rfl, rfl, rfl⟩, .inr List.mem_cons_self⟩

theorem Told.receivePart {t : Tracker} (ho : t.InOrder) (hb : t.binding = .ordered) {p : Pending}
    {rest later : List Pending} (hp : t.pending = p :: (rest ++ later)) {part : Part}
    (hs : peer.say part = some next) (hw : (p :: rest).map Pending.seq = peer.waiting)
    (ht : Told peer.draft (p :: rest)) (hd : (t.receivePart p part).value.tracker.desynced = false) :
    ∃ mine, (t.receivePart p part).value.tracker.pending = mine ++ later
      ∧ (t.receivePart p part).value.tracker.abandoned = t.abandoned
      ∧ mine.map Pending.seq = next.waiting ∧ next.waiting ⊆ peer.waiting
      ∧ Told next.draft mine := by
  unfold Peer.say at hs
  split at hs
  · rename_i seq ws head hwaiting hdraft
    rw [hdraft] at ht
    obtain ⟨hhead, hbody, htrailers⟩ := ht p List.mem_cons_self
    simp only [Tracker.receivePart, hhead]
    cases hi : head.isInterim with
    | true =>
        obtain rfl : peer = next := by simpa [hi] using hs
        exact ⟨p :: rest, hp, rfl, hw, List.Subset.refl _, hdraft ▸ ht⟩
    | false =>
        obtain rfl : { peer with draft := some ⟨head, [], none⟩ } = next := by simpa [hi] using hs
        have hrest : ∀ q ∈ rest, q.IsBlank := fun q hq => ht q (List.mem_cons_of_mem p hq)
        exact ⟨{ p with head := some head } :: rest, ho.update_first hp _, rfl, hw,
          List.Subset.refl _, ⟨rfl, by simp [hbody], htrailers⟩, hrest⟩
  · rename_i seq ws head body octets hwaiting hdraft
    obtain rfl := Option.some.inj hs
    rw [hdraft] at ht
    obtain ⟨⟨hhead, hbody, htrailers⟩, hrest⟩ := ht
    simp only [Tracker.receivePart, hhead] at hd ⊢
    split at hd
    · rcases Tracker.abandon_ordered hb p.seq Fault.tooLarge with ⟨-, hout⟩ | hlost
      · exact absurd (Tracker.mem_seqs (hp ▸ List.mem_cons_self)) hout
      · simp [Tracker.accepted, hlost] at hd
    · rw [if_neg ‹_›]
      exact ⟨{ p with body := p.body.add octets } :: rest, ho.update_first hp _, rfl, hw,
        List.Subset.refl _, ⟨hhead, by simp [hbody], htrailers⟩, hrest⟩
  · rename_i seq ws head body fields hwaiting hdraft
    obtain rfl := Option.some.inj hs
    rw [hdraft] at ht
    obtain ⟨⟨hhead, hbody, htrailers⟩, hrest⟩ := ht
    simp only [Tracker.receivePart, hhead]
    exact ⟨{ p with trailers := some fields } :: rest, ho.update_first hp _, rfl, hw,
      List.Subset.refl _, ⟨hhead, hbody, rfl⟩, hrest⟩
  · rename_i seq ws r hwaiting hdraft
    obtain rfl := Option.some.inj hs
    rw [hdraft] at ht
    obtain ⟨⟨hhead, hbody, htrailers⟩, hrest⟩ := ht
    simp only [Tracker.receivePart, hhead]
    rw [hwaiting] at hw ⊢
    exact ⟨rest, ho.erase_first hp, rfl, (List.cons.inj hw).2, List.subset_cons_self seq ws, hrest⟩
  · simp at hs

theorem Matched.receive (hc : Coherent h c) (hb : c.tracker.binding = .ordered)
    (hsync : c.tracker.desynced = false) (hm : Matched h peer c) (stream : Option StreamId)
    (part : Part) (hs : peer.say part = some next)
    (hd : (c.receive stream part).value.tracker.desynced = false) :
    Matched (h ++ .input (.response stream part) :: ofActions (c.receive stream part).actions) next
      (c.receive stream part).value := by
  obtain ⟨mine, later, hsplit, hmine, hlater, htold⟩ := hm.pending
  have hl : launched (.input (.response stream part)
      :: ofActions (c.receive stream part).actions) = [] :=
    (receive_silent hc.inOrder stream part).1
  -- The server speaks, so that there is a first request.
  obtain ⟨p, rest, rfl⟩ : ∃ p rest, mine = p :: rest := by
    cases mine with
    | cons p rest => exact ⟨p, rest, rfl⟩
    | nil => simp [Peer.say, ← hmine] at hs
  have hfirst : c.tracker.pending = p :: (rest ++ later) := hsplit
  have hreceive : (c.receive stream part).value.tracker
      = (c.tracker.receivePart p part).value.tracker := by
    simp only [Traffic.receive, hc.inOrder.receive_first hb hsync hfirst]
  obtain ⟨mine, hpending, habandoned, hwaiting, hsub, htold⟩ :=
    htold.receivePart hc.inOrder hb hfirst hs hmine (hreceive ▸ hd)
  refine ⟨by rw [hreceive, habandoned, hm.clean], fun seq hseq => ?_,
    mine, later, by rw [hreceive, hpending], hwaiting, hlater, htold⟩
  rw [launched_append, hl, List.append_nil]
  exact hm.written seq (hsub hseq)

theorem Matched.complete (hm : Matched h peer c) (hs : peer.say .finish = some next) {p : Pending}
    {tail : List Pending} (hp : c.tracker.pending = p :: tail) {head : ResponseHead}
    (hhead : p.head = some head) :
    (p.seq, ⟨head, p.body.toOctets, p.trailers⟩) ∈ next.answered := by
  obtain ⟨mine, later, hsplit, hmine, -, htold⟩ := hm.pending
  unfold Peer.say at hs
  split at hs
  case h_4 seq ws r _ hw hdraft _ =>
    obtain rfl := Option.some.inj hs
    rw [hdraft] at htold
    cases mine with
    | nil => exact htold.elim
    | cons q rest =>
        obtain rfl : p = q := (List.cons.inj (hp.symm.trans hsplit)).1
        obtain ⟨⟨hhead', hbody, htrailers⟩, -⟩ := htold
        rw [hw] at hmine
        obtain rfl := Option.some.inj (hhead.symm.trans hhead')
        rw [(List.cons.inj hmine).1, hbody, htrailers]
        exact List.mem_append_right _ List.mem_cons_self
  all_goals simp_all

theorem exists_first_of_takes {t : Tracker} (hb : t.binding = .ordered) {stream : Option StreamId}
    {part : Part} {seq : Nat} (h : t.takes stream part = some seq) :
    ∃ p tail, t.pending = p :: tail ∧ p.seq = seq := by
  obtain ⟨-, hroute, -⟩ := Tracker.takes_eq_some h
  simp only [Tracker.route, hb] at hroute
  split at hroute
  · simp at hroute
  · rename_i p tail hp
    exact ⟨p, tail, hp, Route.to.inj hroute⟩

theorem giveUp_tracker (hb : c.tracker.binding = .ordered) {seq : Nat} {fault : Fault}
    (hd : (c.giveUp seq fault).value.tracker.desynced = false) :
    (c.giveUp seq fault).value.tracker = c.tracker ∧ seq ∉ c.tracker.seqs := by
  rcases Tracker.fail_ordered hb seq fault with hsame | hlost
  · exact hsame
  · exact absurd hlost (by simpa [giveUp, track, encode] using hd)

theorem Matched.same (hm : Matched h peer c) (ha : Advance c x d) (hl : launched x = [])
    (ht : d.tracker = c.tracker) :
    Matched (h ++ x) { peer with waiting := peer.waiting ++ launched x } d := by
  rw [hl, List.append_nil]
  exact hm.keep ha hl (by rw [ht]) (by rw [ht, hm.clean])

theorem Matched.write {clock : Clock} {gone : Nat → Bool} (hc : Coherent h c)
    (hb : c.tracker.binding = .ordered) (hm : Matched h peer c) (hw : Write clock gone c x d)
    (hd : d.tracker.desynced = false) :
    Matched (h ++ x) { peer with waiting := peer.waiting ++ launched x } d := by
  have ha := hw.advance fun a ha => (hc.abandoned a ha).2
  cases hw with
  | stop a rest given => simp [hm.clean] at given
  | skip u rest stopped next free canceled =>
      have hl : launched (ofActions ((c.queue rest).track (c.tracker.forget u.seq)).actions) = [] :=
        launched_quiet (c.tracker.forget_quiet u.seq)
      rw [hl, List.append_nil]
      exact hm.forget hc ha hl (queued_next next ▸ List.mem_cons_self) rfl hm.clean
  | launch u rest sent stopped next free wanted put ok =>
      have hl : launched (ofActions (sent.actions u.seq (.headers u.head u.body.isEnd))) = [u.seq] :=
        sent.launched_of_headers ok
      rw [hl]
      exact hm.launch hc next (Tracker.mem_seqs_of_wanted wanted) hl rfl rfl
  | miss u rest sent fault stopped next free wanted put failed =>
      have hgone := giveUp_tracker (c := (c.queue rest).encode sent.encoder) hb hd
      exact absurd (Tracker.mem_seqs_of_wanted wanted) hgone.2
  | proceed => exact hm.same ha (by simp [Piece.isBody]) rfl
  | stall => exact hm.same ha rfl rfl
  | complete f before behind piece sent stopped flight final put ok =>
      exact hm.same ha (sent.launched_of_body (.inl (Piece.isBody_of_isFinal final))) rfl
  | lose f before behind piece sent fault stopped flight body put failed =>
      have hgone := giveUp_tracker (c := (c.encode sent.encoder).fly (before ++ behind)) hb hd
      exact hm.same ha (by simp [sent.launched_of_fault failed]) hgone.1
  | breakOff f before behind fault stopped flight =>
      have hgone := giveUp_tracker (c := c.fly (before ++ behind)) hb hd
      exact hm.same ha (launched_giveUp _ _ _) hgone.1

theorem Matched.move (hc : Coherent h c) (hb : c.tracker.binding = .ordered)
    (hm : Matched h peer c) (ha : Advance c x d) (hv : Move c x d) (hx : Plain x)
    (hd : d.tracker.desynced = false) :
    Matched (h ++ x) { peer with waiting := peer.waiting ++ launched x } d := by
  cases hv with
  | receive stream part => simpa [Happening.isPlain] using hx _ List.mem_cons_self
  | enroll clock options request sink deadline room =>
      have he := ha.enrolled
      rw [enrolled_input, enrolled_enroll] at he
      simp at he
  | idle e he => exact hm.same ha (Quiet.ofIdle he).launched rfl
  | refuse | wire | sink | feed | fire => exact hm.same ha rfl rfl
  | expire now =>
      rcases Tracker.expire_ordered hb now with hsame | hlost
      · exact hm.same ha (launched_quiet (c.tracker.expire_quiet now)) hsame
      · exact absurd hlost (by simpa [track] using hd)
  | write clock gone wrote => exact hm.write hc hb wrote hd

theorem InStep.matched_move (hc : Coherent h c) (hb : c.tracker.binding = .ordered)
    (hi : InStep h peer c) (hm : Move c x d) (hf : peer.follow x = some next)
    (hd : d.tracker.desynced = false) : Matched (h ++ x) next d := by
  rcases hm.advance hc.inOrder (fun a ha => (hc.abandoned a ha).2) with
    ha | ⟨clock, options, request, sink, deadline, room, rfl, rfl⟩
  · have hsync : c.tracker.desynced = false := by
      cases hs : c.tracker.desynced with
      | false => rfl
      | true => simp [ha.tracker.lasting hs] at hd
    have hmatched := hi.matched hsync
    rcases hm.plain with hplain | ⟨stream, part, rfl, rfl⟩
    · rw [Peer.follow_silent fun stream part hin => by simpa [Happening.isPlain] using hplain _ hin] at hf
      obtain rfl := Option.some.inj hf
      exact hmatched.move hc hb ha hm hplain hd
    · obtain ⟨said, hsaid, hrest⟩ := Option.bind_eq_some_iff.1 (peer.follow_cons _ _ ▸ hf)
      rw [Peer.follow_ofActions (receive_silent hc.inOrder stream part).1] at hrest
      obtain rfl := Option.some.inj hrest
      exact hmatched.receive hc hb hsync stream part hsaid hd
  · rw [enroll_desynced] at hd
    rw [Peer.follow_silent (by simp), launched_input, launched_enroll, List.append_nil] at hf
    obtain rfl := Option.some.inj hf
    exact (hi.matched hd).enroll hc clock options request sink deadline

theorem InStep.delivered_move (hc : Coherent h c) (hb : c.tracker.binding = .ordered)
    (hi : InStep h peer c) (hm : Move c x d) (hf : peer.follow x = some next) (sink : Nat)
    (r : Response) (hr : .action (.answer sink (.complete r)) ∈ h ++ x) :
    ∃ seq, (seq, sink) ∈ enrolled (h ++ x) ∧ (seq, r) ∈ next.answered := by
  rw [enrolled_append]
  rcases List.mem_append.1 hr with hr | hr
  · obtain ⟨seq, he, ha⟩ := hi.delivered sink r hr
    exact ⟨seq, List.mem_append_left _ he, Peer.follow_answered hf ha⟩
  · rcases hm.plain with hplain | ⟨stream, part, rfl, rfl⟩
    · simpa [Happening.isPlain] using hplain _ hr
    · have hreceive : .answer sink (.complete r) ∈ (c.tracker.receive stream part).actions := by
        simpa [Traffic.receive] using hr
      rcases Tracker.receive_replies hc.inOrder stream part _ hreceive with
        hq | ⟨rfl, p, hp, head, htakes, hhead, -, hanswer⟩
      · simp [Action.isQuiet, Action.isIdle] at hq
      · obtain ⟨rfl, hresponse⟩ := Action.answer.inj hanswer
        obtain rfl := Reply.complete.inj hresponse
        obtain ⟨q, tail, hfirst, hseq⟩ := exists_first_of_takes hb htakes
        obtain rfl := hc.inOrder.seq_inj (hfirst ▸ List.mem_cons_self) hp hseq
        obtain ⟨said, hsaid, hrest⟩ := Option.bind_eq_some_iff.1 (peer.follow_cons _ _ ▸ hf)
        have hmatched := hi.matched (Tracker.takes_eq_some htakes).1
        exact ⟨q.seq, List.mem_append_left _ (hc.awaited _ (Tracker.mem_awaited hp)),
          Peer.follow_answered hrest (hmatched.complete hsaid hfirst hhead)⟩

theorem Reached.inStep (hr : Reached h c) (hb : c.tracker.binding = .ordered)
    (hf : Peer.start.follow h = some peer) : InStep h peer c := by
  induction hr generalizing peer with
  | fresh quiet ceiling encoder timer =>
      obtain rfl := Peer.follow_quiet quiet rfl hf
      refine ⟨fun sink r hr => ?_, fun _ => ⟨rfl, by simp [Peer.start], [], [], rfl, rfl, ?_, ?_⟩⟩
      · simpa [Action.isQuiet, Action.isIdle] using quiet _ hr
      · simp
      · simp [Peer.start, Told]
  | move hr hm ih =>
      obtain ⟨q, hq, hx⟩ := Peer.exists_of_follow_append hf
      have hb' := hm.sameSetup.binding.symm.trans hb
      exact ⟨(ih hb' hq).delivered_move hr.coherent hb' hm hx,
        (ih hb' hq).matched_move hr.coherent hb' hm hx⟩

end Traffic

namespace Session

variable {s : Session}

def IsPipelined (s : Session) : Prop := ∃ p, s.protocol = some p ∧ p.isMultiplex = false

theorem IsNew.pipelined (hs : s.IsNew) {inputs : List Input} (hp : (s.after inputs).IsPipelined)
    {c : Traffic} (ht : (s.after inputs).traffic? = some c) :
    Traffic.Reached (s.history inputs) c ∧ c.tracker.binding = .ordered := by
  obtain ⟨hr, q, hq, hbinding⟩ := hs.established inputs ht
  obtain ⟨p, hsome, hmultiplex⟩ := hp
  obtain rfl := Option.some.inj (hsome.symm.trans hq)
  refine ⟨hr, ?_⟩
  cases hc : c.tracker.binding with
  | ordered => rfl
  | byStream => simp [hmultiplex, hc] at hbinding

/-- Over HTTP/1.1 every response that is delivered is the one that the server gave to that request,
as long as the server keeps to the protocol. -/
theorem delivered_as_answered (hs : s.IsNew) (inputs : List Input)
    (hp : (s.after inputs).IsPipelined) {peer : Peer}
    (hf : Peer.start.follow (s.history inputs) = some peer) {sink : Nat} {r : Response}
    (hr : .action (.answer sink (.complete r)) ∈ s.history inputs) :
    ∃ seq, (seq, sink) ∈ enrolled (s.history inputs) ∧ (seq, r) ∈ peer.answered := by
  obtain ⟨before, rest, c, hall, hreached, hquiet, hspeaks⟩ := hs.reached inputs
  obtain ⟨p, hprotocol, hmultiplex⟩ := hp
  have hb : c.tracker.binding = .ordered := by
    have := hspeaks p hprotocol
    cases hc : c.tracker.binding <;> simp_all
  rw [hall] at hf hr ⊢
  obtain ⟨earlier, hbefore, hrest⟩ := Peer.exists_of_follow_append hf
  rcases List.mem_append.1 hr with hr | hr
  · obtain ⟨seq, he, ha⟩ := (hreached.inStep hb hbefore).delivered sink r hr
    rw [enrolled_append]
    exact ⟨seq, List.mem_append_left _ he, Peer.follow_answered hrest ha⟩
  · simpa [Action.isQuiet, Action.isIdle] using hquiet _ hr

def pipeline : List Input :=
  [.negotiated .new true .h1, .dispatch ⟨0, 0, fun _ => false⟩ .default .bare 7,
    .dispatch ⟨0, 0, fun _ => false⟩ .default .bare 8,
    .write ⟨0, 0, fun _ => false⟩ fun _ => false,
    .response none (.head ⟨100, .empty⟩), .response none (.head ⟨200, .empty⟩),
    .response none (.data (ascii "first")), .response none .finish,
    .response none (.head ⟨404, .empty⟩), .response none (.trailers .empty), .response none .finish]

def served : Peer :=
  ⟨[], none, [(1, ⟨⟨200, .empty⟩, ascii "first", none⟩), (2, ⟨⟨404, .empty⟩, [], some .empty⟩)]⟩

theorem delivered_as_answered_pipeline :
    ∃ seq, (seq, 8) ∈ enrolled ((blank 2).history pipeline)
      ∧ (seq, ⟨⟨404, .empty⟩, [], some .empty⟩) ∈ served.answered :=
  delivered_as_answered (blank_isNew 2) pipeline ⟨.h1, by decide +kernel, rfl⟩
    (by decide +kernel : Peer.start.follow ((blank 2).history pipeline) = some served)
    (Happening.action_mem_iff.2 (by decide +kernel))

end Session

end HttpSession
