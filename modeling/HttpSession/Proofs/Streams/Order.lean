import HttpSession.Proofs.Session.Handed
import HttpSession.Proofs.Streams.Effect

namespace HttpSession

open Happening (ofActions)

namespace Piece

def isHeaders : Piece → Bool
  | .headers _ _ => true
  | _ => false

def isLast : Piece → Bool
  | .headers _ last => last
  | .data _ last => last
  | .trailers _ => true
  | .reset => false

end Piece

namespace Handed

def opens? (x : Handed) : Option Nat :=
  if x.piece.isHeaders then some x.seq else none

def closes (x : Handed) : Bool := x.piece.isLast || !x.ok

def Allows (x y : Handed) : Prop := x.piece ≠ .reset ∧ (x.closes = true → y.piece = .reset)

def IsOpen (x : Handed) : Prop := x.piece ≠ .reset ∧ x.closes = false

theorem IsOpen.allows {x : Handed} (hx : x.IsOpen) (y : Handed) : x.Allows y :=
  ⟨hx.1, fun hc => by simp [hx.2] at hc⟩

theorem allows_reset {x y : Handed} (hx : x.piece ≠ .reset) (hy : y.piece = .reset) : x.Allows y :=
  ⟨hx, fun _ => hy⟩

end Handed

def opened (l : List Handed) : List Nat := l.filterMap Handed.opens?

structure FrameOrder (l : List Handed) : Prop where
  opened : ∀ x ∈ l, x.seq ∈ opened l
  ordered : l.Pairwise fun x y => x.seq = y.seq → y.piece.isHeaders = false ∧ x.Allows y

section

variable {l : List Handed} {y : Handed}

theorem opened_snoc (l : List Handed) (y : Handed) : opened (l ++ [y]) = opened l ++ y.opens?.toList := by
  rw [opened, List.filterMap_append]
  cases hy : y.opens? <;> simp [opened, hy]

theorem opened_headers (hy : y.piece.isHeaders = true) : opened (l ++ [y]) = opened l ++ [y.seq] := by
  simp [opened_snoc, Handed.opens?, hy]

theorem opened_other (hy : y.piece.isHeaders = false) : opened (l ++ [y]) = opened l := by
  simp [opened_snoc, Handed.opens?, hy]

namespace FrameOrder

theorem nil : FrameOrder [] := ⟨by simp, .nil⟩

theorem headers (hl : FrameOrder l) (hy : y.piece.isHeaders = true) (hnew : y.seq ∉ HttpSession.opened l) :
    FrameOrder (l ++ [y]) where
  opened x hx := by
    rw [opened_headers hy, List.mem_append]
    rcases List.mem_append.1 hx with hx | hx
    · exact .inl (hl.opened x hx)
    · exact .inr (by simp [List.mem_singleton.1 hx])
  ordered := by
    refine List.pairwise_append.2 ⟨hl.ordered, List.pairwise_singleton _ _, ?_⟩
    intro x hx z hz he
    obtain rfl := List.mem_singleton.1 hz
    exact absurd (he ▸ hl.opened x hx) hnew

theorem other (hl : FrameOrder l) (hy : y.piece.isHeaders = false) (hopen : y.seq ∈ HttpSession.opened l)
    (hallows : ∀ x ∈ l, x.seq = y.seq → x.Allows y) : FrameOrder (l ++ [y]) where
  opened x hx := by
    rw [opened_other hy]
    rcases List.mem_append.1 hx with hx | hx
    · exact hl.opened x hx
    · exact List.mem_singleton.1 hx ▸ hopen
  ordered := by
    refine List.pairwise_append.2 ⟨hl.ordered, List.pairwise_singleton _ _, ?_⟩
    intro x hx z hz he
    obtain rfl := List.mem_singleton.1 hz
    exact ⟨hy, hallows x hx he⟩

end FrameOrder

end

namespace Traffic

variable {c d : Traffic} {h x : List Happening}

structure Streamed (h : List Happening) (c : Traffic) : Prop where
  rising : (opened (handed h) ++ c.queued).Pairwise (· < ·)
  taken : ∀ seq ∈ opened (handed h) ++ c.queued, 0 < seq ∧ seq ≤ c.dispatched
  order : FrameOrder (handed h)
  flying : ∀ seq ∈ c.flying,
    seq ∈ opened (handed h) ∧ ∀ x ∈ handed h, x.seq = seq → x.IsOpen
  held : c.tracker.held.Nodup
  placed : ∀ seq ∈ c.tracker.held, seq ∈ opened (handed h) ++ c.queued
  silenced : ∀ x ∈ handed h, x.piece = .reset → x.seq ∉ c.tracker.held

theorem Coherent.flying_nodup (hc : Coherent h c) : c.flying.Nodup :=
  ((List.pairwise_append.1 hc.lines).1.imp Nat.ne_of_lt).sublist hc.flying

theorem nodup_of_subperm {xs ys : List Nat} (h : xs.Subperm ys) (hn : ys.Nodup) : xs.Nodup := by
  obtain ⟨l, hperm, hsub⟩ := h
  exact hperm.nodup_iff.1 (hn.sublist hsub)

namespace Streamed

theorem fresh (quiet : Quiet h) (ceiling : Nat) (encoder : Encoder) (timer : Timer) :
    Streamed h (fresh ceiling encoder timer) where
  rising := by simp [quiet.handed, opened, queued, Traffic.fresh, Writer.new]
  taken := by simp [quiet.handed, opened, queued, Traffic.fresh, Writer.new]
  order := quiet.handed ▸ .nil
  flying := by simp [Traffic.flying, Traffic.fresh, Writer.new]
  held := by simp [Tracker.held, Tracker.seqs, Traffic.fresh, Tracker.new]
  placed := by simp [Tracker.held, Tracker.seqs, Traffic.fresh, Tracker.new]
  silenced := by simp [quiet.handed]

theorem notQueued (hs : Streamed h c) {seq : Nat} (ho : seq ∈ opened (handed h)) : seq ∉ c.queued :=
  fun hq => absurd rfl (Nat.ne_of_lt ((List.pairwise_append.1 hs.rising).2.2 seq ho seq hq))

theorem keep (hs : Streamed h c) (hx : handed x = []) (hd : d.dispatched = c.dispatched)
    (hq : d.queued.Sublist c.queued) (hf : d.flying ⊆ c.flying)
    (ht : d.tracker.held.Subperm c.tracker.held)
    (hout : ∀ seq ∈ d.tracker.held, seq ∈ c.queued → seq ∈ d.queued) : Streamed (h ++ x) d := by
  have hsame : handed (h ++ x) = handed h := by simp [hx]
  have hlines : (opened (handed h) ++ d.queued).Sublist (opened (handed h) ++ c.queued) :=
    hq.append_left _
  refine ⟨?_, ?_, ?_, ?_, nodup_of_subperm ht hs.held, ?_, ?_⟩ <;> rw [hsame]
  · exact hs.rising.sublist hlines
  · rw [hd]
    exact fun seq hm => hs.taken seq (hlines.subset hm)
  · exact hs.order
  · exact fun seq hm => hs.flying seq (hf hm)
  · intro seq hm
    rw [List.mem_append]
    exact (List.mem_append.1 (hs.placed seq (ht.subset hm))).imp id (hout seq hm)
  · exact fun y hy hr hm => hs.silenced y hy hr (ht.subset hm)

theorem headers (hs : Streamed h c) {y : Handed} (hx : handed x = [y])
    (hy : y.piece.isHeaders = true) (next : c.queued = y.seq :: d.queued)
    (hd : d.dispatched = c.dispatched) (ht : d.tracker = c.tracker)
    (hf : ∀ seq ∈ d.flying, seq ∈ c.flying ∨ seq = y.seq ∧ y.IsOpen) : Streamed (h ++ x) d := by
  have hlines : opened (handed h ++ [y]) ++ d.queued = opened (handed h) ++ c.queued := by
    rw [opened_headers hy, next, List.append_assoc, List.singleton_append]
  have hnew : y.seq ∉ opened (handed h) := fun ho =>
    hs.notQueued ho (next ▸ List.mem_cons_self)
  have hfresh : ∀ z ∈ handed h, z.seq ≠ y.seq := fun z hz he => hnew (he ▸ hs.order.opened z hz)
  refine ⟨?_, ?_, ?_, ?_, ht ▸ hs.held, ?_, ?_⟩ <;> rw [handed_append, hx]
  · exact hlines ▸ hs.rising
  · rw [hlines, hd]
    exact hs.taken
  · exact hs.order.headers hy hnew
  · intro seq hm
    rw [opened_headers hy, List.mem_append]
    rcases hf seq hm with hm | ⟨rfl, hopen⟩
    · obtain ⟨ho, hall⟩ := hs.flying seq hm
      refine ⟨.inl ho, fun z hz he => ?_⟩
      rcases List.mem_append.1 hz with hz | hz
      · exact hall z hz he
      · obtain rfl := List.mem_singleton.1 hz
        exact absurd (he ▸ ho) hnew
    · refine ⟨.inr List.mem_cons_self, fun z hz he => ?_⟩
      rcases List.mem_append.1 hz with hz | hz
      · exact absurd he (hfresh z hz)
      · exact List.mem_singleton.1 hz ▸ hopen
  · rw [hlines, ht]
    exact hs.placed
  · intro z hz hr
    rcases List.mem_append.1 hz with hz | hz
    · exact ht ▸ hs.silenced z hz hr
    · obtain rfl := List.mem_singleton.1 hz
      simp [hr, Piece.isHeaders] at hy

theorem other (hs : Streamed h c) {y : Handed} (hx : handed x = [y]) (hy : y.piece.isHeaders = false)
    (ho : y.seq ∈ opened (handed h)) (hallows : ∀ z ∈ handed h, z.seq = y.seq → z.Allows y)
    (hd : d.dispatched = c.dispatched) (hq : d.queued = c.queued)
    (hf : ∀ seq ∈ d.flying, seq ∈ c.flying ∧ (seq = y.seq → y.IsOpen))
    (ht : d.tracker.held.Subperm c.tracker.held)
    (hstop : y.piece = .reset → y.seq ∉ d.tracker.held) : Streamed (h ++ x) d := by
  have hsame := opened_other (l := handed h) hy
  refine ⟨?_, ?_, ?_, ?_, nodup_of_subperm ht hs.held, ?_, ?_⟩ <;> rw [handed_append, hx]
  · rw [hsame, hq]
    exact hs.rising
  · rw [hsame, hq, hd]
    exact hs.taken
  · exact hs.order.other hy ho hallows
  · intro seq hm
    obtain ⟨hm, hopen⟩ := hf seq hm
    obtain ⟨ho, hall⟩ := hs.flying seq hm
    refine ⟨hsame ▸ ho, fun z hz he => ?_⟩
    rcases List.mem_append.1 hz with hz | hz
    · exact hall z hz he
    · obtain rfl := List.mem_singleton.1 hz
      exact hopen he.symm
  · rw [hsame, hq]
    exact fun seq hm => hs.placed seq (ht.subset hm)
  · intro z hz hr
    rcases List.mem_append.1 hz with hz | hz
    · exact fun hm => hs.silenced z hz hr (ht.subset hm)
    · obtain rfl := List.mem_singleton.1 hz
      exact hstop hr

theorem giveUp (hs : Streamed h c) (hc : c.tracker.InOrder) (hb : c.tracker.binding = .byStream)
    (stopped : c.tracker.abandoned = []) {seq : Nat} (fault : Fault)
    (ho : seq ∈ opened (handed h)) (hout : seq ∉ c.flying)
    (hreset : ∀ x ∈ handed h, x.seq = seq → x.piece ≠ .reset) :
    Streamed (h ++ ofActions (c.giveUp seq fault).actions) (c.giveUp seq fault).value := by
  obtain ⟨ok, hx⟩ := c.giveUp_handed seq fault
  have hheld : (c.tracker.fail seq fault).value.held.Subperm c.tracker.held :=
    (hc.fail_dismisses hb seq fault).held
  have hgone : (c.tracker.fail seq fault).value.abandoned = [] := by
    simp [Tracker.fail, hb, Tracker.settle, Tracker.erase, stopped]
  refine hs.other hx rfl ho (fun z hz he => Handed.allows_reset (hreset z hz he) rfl) rfl rfl
    (fun s hf => ⟨hf, ?_⟩) hheld fun _ => ?_
  · rintro rfl
    exact absurd hf hout
  · have hseqs := Tracker.fail_seqs c.tracker seq fault
    simpa [Traffic.giveUp, track, encode, Tracker.held, hgone] using hseqs

theorem landed (hs : Streamed h c) {f : InFlight} {before behind : List InFlight}
    (flight : c.writer.active = before ++ f :: behind) :
    f.seq ∈ opened (handed h) ∧ ∀ x ∈ handed h, x.seq = f.seq → x.IsOpen :=
  hs.flying f.seq (by simp [Traffic.flying, flight])

theorem notFlying (hc : Coherent h c) {f : InFlight} {before behind : List InFlight}
    (flight : c.writer.active = before ++ f :: behind) :
    f.seq ∉ (before ++ behind).map InFlight.seq := by
  have hnodup := hc.flying_nodup
  rw [Traffic.flying, flight, List.map_append, List.map_cons, List.nodup_middle] at hnodup
  rw [List.map_append]
  exact (List.nodup_cons.1 hnodup).1

theorem stop (hs : Streamed h c) (hc : Coherent h c) (a : Abandoned) {rest : List Abandoned}
    (given : c.tracker.abandoned = a :: rest) :
    Streamed (h ++ ofActions (c.writer.abandon a.seq a.reset).2)
      { c with
        writer := (c.writer.abandon a.seq a.reset).1
        tracker := { c.tracker with abandoned := rest } } := by
  have hheld : c.tracker.held = a.seq :: Tracker.held { c.tracker with abandoned := rest } := by
    simp [Tracker.held, given, Tracker.seqs]
  have hout : a.seq ∉ Tracker.held { c.tracker with abandoned := rest } :=
    (List.nodup_cons.1 (hheld ▸ hs.held)).1
  have hless : (Tracker.held { c.tracker with abandoned := rest }).Subperm c.tracker.held :=
    hheld ▸ (List.sublist_cons_self a.seq _).subperm
  have hplaced := hs.placed a.seq (hheld ▸ List.mem_cons_self)
  rcases c.writer.abandon_cases a with ⟨-, he⟩ | ⟨hq, hqueue, hactive, hx⟩
  · rw [he]
    refine hs.keep rfl rfl (List.eraseP_sublist.map _) (List.Subset.refl _) hless ?_
    intro seq hm hq
    obtain ⟨u, hu, rfl⟩ := List.mem_map.1 hq
    refine List.mem_map_of_mem ((List.mem_eraseP_of_neg ?_).2 hu)
    simpa using fun he : u.seq = a.seq => hout (he ▸ hm)
  · have hfly : ((c.writer.abandon a.seq a.reset).1.active.map InFlight.seq).Sublist c.flying :=
      hactive ▸ List.eraseP_sublist.map _
    have hground : a.seq ∉ (c.writer.abandon a.seq a.reset).1.active.map InFlight.seq :=
      hactive ▸ Writer.not_mem_eraseP hc.flying_nodup a.seq
    cases hr : a.reset with
    | false =>
        rw [hr] at hx hqueue hfly
        exact hs.keep hx rfl (by simp [Traffic.queued, hqueue]) hfly.subset hless
          fun seq _ hm => by simpa [Traffic.queued, hqueue] using hm
    | true =>
        rw [hr] at hx hqueue hfly hground
        refine hs.other hx rfl ((List.mem_append.1 hplaced).resolve_right hq) ?_ rfl
          (by simp [Traffic.queued, hqueue]) ?_ hless fun _ => hout
        · intro z hz he
          refine Handed.allows_reset (fun hreset => ?_) rfl
          exact hs.silenced z hz hreset (he ▸ hheld ▸ List.mem_cons_self)
        · intro seq hm
          refine ⟨hfly.subset hm, ?_⟩
          rintro rfl
          exact absurd hm hground

theorem skip (hs : Streamed h c) (hc : Coherent h c) (stopped : c.tracker.abandoned = [])
    {u : Upload} {rest : List Upload} (next : c.writer.queue = u :: rest) :
    Streamed (h ++ ofActions ((c.queue rest).track (c.tracker.forget u.seq)).actions)
      ((c.queue rest).track (c.tracker.forget u.seq)).value := by
  have hqueued := queued_next next
  have hout : u.seq ∉ (c.tracker.forget u.seq).value.held := by
    have hseqs := Tracker.forget_seqs c.tracker u.seq
    simpa [Tracker.held, Tracker.forget, Tracker.settle, Tracker.erase, stopped] using hseqs
  refine hs.keep (handed_quiet (c.tracker.forget_quiet u.seq)) rfl ?_ (List.Subset.refl _)
    (hc.inOrder.settle_dismisses u.seq (.failed Fault.canceled)).held ?_
  · rw [hqueued]
    exact List.sublist_cons_self u.seq _
  · intro seq hm hq
    rw [hqueued] at hq
    refine (List.mem_cons.1 hq).resolve_left ?_
    rintro rfl
    exact hout hm

theorem launch (hs : Streamed h c) {clock : Clock} {u : Upload} {rest : List Upload}
    (next : c.writer.queue = u :: rest) {sent : Emission} (ok : sent.fault = none) :
    Streamed (h ++ ofActions (sent.actions u.seq (.headers u.head u.body.isEnd)))
      (((c.queue rest).encode sent.encoder).fly (c.writer.active ++ c.writer.started clock u)) := by
  refine hs.headers sent.handed_actions rfl (queued_next next) rfl rfl fun seq hm => ?_
  have hsplit : seq ∈ c.flying ∨ seq ∈ (c.writer.started clock u).map InFlight.seq := by
    simpa only [Traffic.flying, fly, encode, List.map_append, List.mem_append] using hm
  refine hsplit.imp id fun hm => ?_
  unfold Writer.started at hm
  split at hm
  · simp at hm
  · rename_i hend
    exact ⟨by simpa using hm, by simp, by simpa [Handed.closes, Piece.isLast, ok] using hend⟩

theorem miss (hs : Streamed h c) (hc : Coherent h c) (hb : c.tracker.binding = .byStream)
    (stopped : c.tracker.abandoned = []) {u : Upload} {rest : List Upload}
    (next : c.writer.queue = u :: rest) (sent : Emission) (fault : Fault) :
    Streamed (h ++ ofActions (sent.actions u.seq (.headers u.head u.body.isEnd)
        ++ (((c.queue rest).encode sent.encoder).giveUp u.seq fault).actions))
      (((c.queue rest).encode sent.encoder).giveUp u.seq fault).value := by
  have hqueued := queued_next next
  have hnew : u.seq ∉ opened (handed h) := fun ho => hs.notQueued ho (hqueued ▸ List.mem_cons_self)
  have hhanded : handed (ofActions (sent.actions u.seq (.headers u.head u.body.isEnd)))
      = [⟨u.seq, .headers u.head u.body.isEnd, sent.fault.isNone⟩] := sent.handed_actions
  have htried := hs.headers (d := (c.queue rest).encode sent.encoder) hhanded rfl hqueued rfl rfl
    fun seq hm => .inl hm
  rw [Happening.ofActions_append, ← List.append_assoc]
  refine htried.giveUp hc.inOrder hb stopped fault ?_ (fun hf => hnew (hs.flying u.seq hf).1) ?_
  · rw [handed_append, sent.handed_actions, opened_headers rfl]
    exact List.mem_append_right _ List.mem_cons_self
  · intro x hx he
    rw [handed_append, sent.handed_actions] at hx
    rcases List.mem_append.1 hx with hx | hx
    · exact absurd (he ▸ hs.order.opened x hx) hnew
    · rw [List.mem_singleton.1 hx]
      simp

theorem lose (hs : Streamed h c) (hc : Coherent h c) (hb : c.tracker.binding = .byStream)
    (stopped : c.tracker.abandoned = []) {f : InFlight} {before behind : List InFlight}
    (flight : c.writer.active = before ++ f :: behind) {piece : Piece} (body : piece.isBody = true)
    (sent : Emission) (fault : Fault) :
    Streamed (h ++ ofActions (sent.actions f.seq piece
        ++ (((c.encode sent.encoder).fly (before ++ behind)).giveUp f.seq fault).actions))
      (((c.encode sent.encoder).fly (before ++ behind)).giveUp f.seq fault).value := by
  obtain ⟨ho, hopen⟩ := hs.landed flight
  have hkinds : piece.isHeaders = false ∧ piece ≠ .reset := by
    cases piece <;> simp_all [Piece.isBody, Piece.isHeaders]
  have hground := notFlying hc flight
  have htaken := hs.other (d := (c.encode sent.encoder).fly (before ++ behind)) sent.handed_actions
    hkinds.1 ho (fun x hx he => (hopen x hx he).allows _) rfl rfl
    (fun seq hm => ⟨(flying_take flight).subset hm, by rintro rfl; exact absurd hm hground⟩)
    (List.Subperm.refl _) fun hr => absurd hr hkinds.2
  rw [Happening.ofActions_append, ← List.append_assoc]
  refine htaken.giveUp hc.inOrder hb stopped fault ?_ hground ?_
  · rw [handed_append, sent.handed_actions, opened_other hkinds.1]
    exact ho
  · intro x hx he
    rw [handed_append, sent.handed_actions] at hx
    rcases List.mem_append.1 hx with hx | hx
    · exact (hopen x hx he).1
    · rw [List.mem_singleton.1 hx]
      exact hkinds.2

theorem write (hs : Streamed h c) (hc : Coherent h c) (hb : c.tracker.binding = .byStream)
    {clock : Clock} {gone : Nat → Bool} (hw : Write clock gone c x d) : Streamed (h ++ x) d := by
  cases hw with
  | stop a rest given => exact hs.stop hc a given
  | skip u rest stopped next free canceled => exact hs.skip hc stopped next
  | launch u rest sent stopped next free wanted put ok => exact hs.launch next ok
  | miss u rest sent fault stopped next free wanted put failed =>
      exact hs.miss hc hb stopped next sent fault
  | proceed f before behind octets rest sent stopped flight frame put ok =>
      obtain ⟨ho, hopen⟩ := hs.landed flight
      refine hs.other sent.handed_actions rfl ho (fun x hx he => (hopen x hx he).allows _) rfl rfl
        (fun seq hm => ⟨(flying_keep flight (by rfl)).subset hm, fun _ => ⟨by simp, ?_⟩⟩)
        (List.Subperm.refl _) (by simp)
      simp [Handed.closes, Piece.isLast, ok]
  | stall f before behind stopped flight =>
      exact hs.keep rfl rfl (.refl _) (flying_keep flight (by rfl)).subset (List.Subperm.refl _)
        fun _ _ => id
  | complete f before behind piece sent stopped flight final put ok =>
      obtain ⟨ho, hopen⟩ := hs.landed flight
      have hkinds : piece.isHeaders = false ∧ piece ≠ .reset := by
        cases piece <;> simp_all [Piece.isFinal, Piece.isHeaders]
      refine hs.other sent.handed_actions hkinds.1 ho (fun x hx he => (hopen x hx he).allows _) rfl rfl
        (fun seq hm => ⟨(flying_take flight).subset hm, ?_⟩) (List.Subperm.refl _)
        fun hr => absurd hr hkinds.2
      rintro rfl
      exact absurd hm (notFlying hc flight)
  | lose f before behind piece sent fault stopped flight body put failed =>
      exact hs.lose hc hb stopped flight body sent fault
  | breakOff f before behind fault stopped flight =>
      obtain ⟨ho, hopen⟩ := hs.landed flight
      have hlanded := hs.keep (x := []) (d := c.fly (before ++ behind)) rfl rfl (.refl _)
        (flying_take flight).subset (List.Subperm.refl _) fun _ _ => id
      rw [List.append_nil] at hlanded
      exact hlanded.giveUp hc.inOrder hb stopped fault ho (notFlying hc flight)
        fun x hx he => (hopen x hx he).1

theorem enroll (hs : Streamed h c) (hc : Coherent h c) (clock : Clock) (options : Options)
    (request : Request) (sink : Nat) (deadline : Option Instant) :
    Streamed (h ++ .input (.dispatch clock options request sink)
        :: ofActions (c.enroll options request sink deadline).actions)
      (c.enroll options request sink deadline).value := by
  have hsame : handed (h ++ .input (.dispatch clock options request sink)
      :: ofActions (c.enroll options request sink deadline).actions) = handed h := by
    rw [handed_append, handed_input, enroll_handed, List.append_nil]
  have hlines : opened (handed h) ++ (c.enroll options request sink deadline).value.queued
      = (opened (handed h) ++ c.queued) ++ [c.dispatched + 1] := by
    rw [enroll_queued, List.append_assoc]
  have hheld : (c.enroll options request sink deadline).value.tracker.held
      = c.tracker.held ++ [c.dispatched + 1] := by
    rw [Tracker.held, enroll_abandoned, hc.enroll_seqs, ← List.append_assoc]
    rfl
  have hle : ∀ seq ∈ opened (handed h) ++ c.queued, seq < c.dispatched + 1 := fun seq hm =>
    Nat.lt_succ_of_le (hs.taken seq hm).2
  have hfresh : c.dispatched + 1 ∉ c.tracker.held := fun hm =>
    absurd (hle _ (hs.placed _ hm)) (Nat.lt_irrefl _)
  refine ⟨?_, ?_, hsame ▸ hs.order, hsame ▸ hs.flying, ?_, ?_, ?_⟩
  · rw [hsame, hlines, List.pairwise_append]
    exact ⟨hs.rising, List.pairwise_singleton _ _, by simpa using hle⟩
  · rw [hsame, hlines]
    intro seq hm
    rcases List.mem_append.1 hm with hm | hm
    · exact (hs.taken seq hm).imp_right Nat.le_succ_of_le
    · obtain rfl := List.mem_singleton.1 hm
      exact ⟨Nat.succ_pos _, Nat.le_refl _⟩
  · rw [hheld, List.nodup_append]
    refine ⟨hs.held, List.nodup_singleton _, ?_⟩
    rintro seq hm _ hn rfl
    exact hfresh (List.mem_singleton.1 hn ▸ hm)
  · rw [hsame, hlines, hheld]
    intro seq hm
    exact List.mem_append.2 ((List.mem_append.1 hm).imp (hs.placed seq) id)
  · rw [hsame, hheld]
    intro x hx hr hm
    rcases List.mem_append.1 hm with hm | hm
    · exact hs.silenced x hx hr hm
    · have hopen := List.mem_append_left c.queued (hs.order.opened x hx)
      exact absurd (hle _ hopen) (by simp [List.mem_singleton.1 hm])

theorem move (hs : Streamed h c) (hc : Coherent h c) (hb : c.tracker.binding = .byStream)
    (hm : Move c x d) : Streamed (h ++ x) d := by
  have heffect := Tracker.use_effect hc.inOrder hb
  have still : ∀ {x : List Happening} {d : Traffic}, handed x = [] → d.dispatched = c.dispatched →
      d.queued = c.queued → d.flying = c.flying → d.tracker.held.Subperm c.tracker.held →
      Streamed (h ++ x) d := fun hx hd hq hf ht =>
    hs.keep hx hd (hq ▸ .refl _) (hf ▸ List.Subset.refl _) ht fun _ _ hm => hq ▸ hm
  have hself := List.Subperm.refl c.tracker.held
  cases hm with
  | idle e he => exact still (Quiet.ofIdle he).handed rfl rfl rfl hself
  | enroll clock options request sink deadline room =>
      exact hs.enroll hc clock options request sink deadline
  | refuse => exact still rfl rfl rfl rfl hself
  | receive stream part =>
      exact still (receive_handed hc.inOrder stream part) rfl rfl rfl
        ((heffect (.receive stream part)).held rfl)
  | expire now =>
      exact still (handed_quiet (c.tracker.expire_quiet now)) rfl rfl rfl
        ((heffect (.expire now)).held rfl)
  | wire f => exact still rfl rfl rfl rfl hself
  | sink f => exact still rfl rfl rfl rfl hself
  | feed source frames ended =>
      refine still rfl rfl ?_ ?_ hself <;>
        simp [Writer.feed, queued, Traffic.flying, Function.comp_def]
  | fire =>
      exact still rfl rfl rfl (by simp [Writer.fire, Traffic.flying, Function.comp_def]) hself
  | write clock gone wrote => exact hs.write hc hb wrote

end Streamed

theorem Reached.streamed (hr : Reached h c) (hb : c.tracker.binding = .byStream) : Streamed h c := by
  induction hr with
  | fresh quiet ceiling encoder timer => exact .fresh quiet ceiling encoder timer
  | move hr hm ih =>
      have hb' := hm.sameSetup.binding.symm.trans hb
      exact (ih hb').move hr.coherent hb' hm

end Traffic

end HttpSession
