import HttpSession.Proofs.Session.Success
import HttpSession.Proofs.Streams.Order
import HttpSession.Proofs.Tracker.Shedding

namespace HttpSession

open Happening (ofActions)

theorem Emission.unanswered (sent : Emission) (seq : Nat) (piece : Piece) (sink : Nat)
    (reply : Reply) : .answer sink reply ∉ sent.actions seq piece := by
  simp [Emission.actions]

namespace Traffic

variable {c d : Traffic} {h x : List Happening} {seq : Nat}

/-- Nobody waits for the request any more, and if it is still in flight it will be stopped before
anything else is written. -/
def IsDone (c : Traffic) (seq : Nat) : Prop :=
  c.HasLost seq ∧ (seq ∈ c.flying → seq ∈ c.tracker.abandoned.map Abandoned.seq)

def marks (c : Traffic) (seq : Nat) : Nat := (c.tracker.abandoned.map Abandoned.seq).count seq

theorem Write.handed_of_stopped {clock : Clock} {gone : Nat → Bool} (hw : Write clock gone c x d)
    (stopped : c.tracker.abandoned = []) :
    ∀ y ∈ handed x, y.seq ∈ c.flying ∨ y.seq ∈ c.tracker.seqs := by
  have hflight : ∀ {f : InFlight} {before behind : List InFlight},
      c.writer.active = before ++ f :: behind → f.seq ∈ c.flying := fun flight => by
    simp [flying, flight]
  have hpair : ∀ {s : Nat} (actions : List Action) {c' : Traffic} {fault : Fault},
      (∀ y ∈ handed (ofActions actions), y.seq = s) →
      ∀ y ∈ handed (ofActions (actions ++ (c'.giveUp s fault).actions)), y.seq = s := by
    intro s actions c' fault hfirst y hy
    obtain ⟨ok, hreset⟩ := c'.giveUp_handed s fault
    rw [Happening.ofActions_append, handed_append, hreset] at hy
    rcases List.mem_append.1 hy with hy | hy
    · exact hfirst y hy
    · rw [List.mem_singleton.1 hy]
  intro y hy
  cases hw with
  | stop a rest given => simp [stopped] at given
  | skip u rest => simp [handed_quiet (c.tracker.forget_quiet u.seq), track, Traffic.queue] at hy
  | launch u rest sent stopped next free wanted put ok =>
      have hseq : y.seq = u.seq := by simp_all
      exact .inr (hseq ▸ Tracker.mem_seqs_of_wanted wanted)
  | miss u rest sent fault stopped next free wanted put failed =>
      have hseq := hpair _ (by simp) y hy
      exact .inr (hseq ▸ Tracker.mem_seqs_of_wanted wanted)
  | proceed f before behind octets rest sent stopped flight frame put ok =>
      have hseq : y.seq = f.seq := by simp_all
      exact .inl (hseq ▸ hflight flight)
  | stall => simp at hy
  | complete f before behind piece sent stopped flight final put ok =>
      have hseq : y.seq = f.seq := by simp_all
      exact .inl (hseq ▸ hflight flight)
  | lose f before behind piece sent fault stopped flight body put failed =>
      have hseq := hpair _ (by simp) y hy
      exact .inl (hseq ▸ hflight flight)
  | breakOff f before behind fault stopped flight =>
      have hseq := hpair [] (by simp) y hy
      exact .inl (hseq ▸ hflight flight)

structure Concludes (c : Traffic) (x : List Happening) (d : Traffic) (first : List Happening)
    (marked : List Abandoned) (spared : List Nat) (r : Traced Tracker) : Prop where
  course : x = first ++ ofActions r.actions
  unanswered : ∀ sink fault, .action (.answer sink (.failed fault)) ∉ first
  dispatched : d.dispatched = c.dispatched
  tracker : d.tracker = r.value
  sheds : c.tracker.Sheds marked spared r
  silent : handed (ofActions r.actions) = []
  grounded : ∀ sink fault, .answer sink (.failed fault) ∈ r.actions → ∀ s ∈ spared, s ∉ d.flying
  handed : ∀ y ∈ handed x,
    c.tracker.abandoned = [] ∧ (y.seq ∈ c.flying ∨ y.seq ∈ c.tracker.seqs)

inductive Conclusion (c : Traffic) : List Happening → Traffic → Prop
  | enroll (clock : Clock) (options : Options) (request : Request) (sink : Nat)
      (deadline : Option Instant) :
      Conclusion c (.input (.dispatch clock options request sink)
          :: ofActions (c.enroll options request sink deadline).actions)
        (c.enroll options request sink deadline).value
  | refuse (clock : Clock) (options : Options) (request : Request) (sink : Nat) :
      Conclusion c [.input (.dispatch clock options request sink),
        .action (.answer sink (.failed Fault.closedSession))] c
  | stop (a : Abandoned) (rest : List Abandoned) (given : c.tracker.abandoned = a :: rest) :
      Conclusion c (ofActions (c.writer.abandon a.seq a.reset).2)
        { c with
          writer := (c.writer.abandon a.seq a.reset).1
          tracker := { c.tracker with abandoned := rest } }
  | shed {x : List Happening} {d : Traffic} {e : List Happening} {marked : List Abandoned}
      {spared : List Nat} {r : Traced Tracker} (hs : c.Concludes x d e marked spared r) :
      Conclusion c x d

namespace Conclusion

theorem ofIdle {first : List Happening} (hx : HttpSession.handed first = [])
    (hn : ∀ sink fault, .action (.answer sink (.failed fault)) ∉ first)
    (hd : d.dispatched = c.dispatched) (ht : d.tracker = c.tracker) : Conclusion c first d :=
  .shed (r := pure c.tracker)
    ⟨by simp, hn, hd, ht, .refl _, by simp, by simp, by simp [hx]⟩

theorem ofHanded {actions : List Action} (stopped : c.tracker.abandoned = [])
    (hy : ∀ y ∈ HttpSession.handed (ofActions actions), y.seq ∈ c.flying ∨ y.seq ∈ c.tracker.seqs)
    (hn : ∀ sink reply, .answer sink reply ∉ actions) (hd : d.dispatched = c.dispatched)
    (ht : d.tracker = c.tracker) : Conclusion c (ofActions actions) d :=
  .shed (e := ofActions actions) (r := pure c.tracker)
    ⟨by simp, fun sink _ hm => hn sink _ (Happening.action_mem_ofActions.1 hm), hd, ht, .refl _, by simp,
      by simp, fun y hm => ⟨stopped, hy y hm⟩⟩

theorem ofGiveUp (hc : Coherent h c) (stopped : c.tracker.abandoned = []) {w : Writer} {seq : Nat}
    (fault : Fault) {r : List Action} (hn : ∀ sink reply, .answer sink reply ∉ r)
    (hout : seq ∉ w.active.map InFlight.seq)
    (hy : ∀ y ∈ HttpSession.handed (ofActions (r ++ ({ c with writer := w }.giveUp seq fault).actions)),
      y.seq ∈ c.flying ∨ y.seq ∈ c.tracker.seqs) :
    Conclusion c (ofActions (r ++ ({ c with writer := w }.giveUp seq fault).actions))
      ({ c with writer := w }.giveUp seq fault).value := by
  obtain ⟨marked, spared, hs, hself⟩ := hc.inOrder.fail_sheds seq fault
  refine .shed (e := ofActions (r ++ (w.encoder.put seq .reset).actions seq .reset))
    ⟨?_, fun sink other hm => ?_, rfl, rfl, hs, handed_quiet (c.tracker.fail_quiet seq fault),
      fun sink other _ s hmem => ?_, fun y hm => ⟨stopped, hy y hm⟩⟩
  · simp [giveUp, track, encode]
  · rw [Happening.action_mem_ofActions, List.mem_append] at hm
    exact hm.elim (hn sink _) (Emission.unanswered _ seq .reset sink _)
  · rw [hself s hmem]
    exact hout

end Conclusion

theorem Write.conclusion (hc : Coherent h c) {clock : Clock} {gone : Nat → Bool}
    (hw : Write clock gone c x d) : Conclusion c x d := by
  by_cases stopped : c.tracker.abandoned = []
  · have hy := hw.handed_of_stopped stopped
    cases hw with
    | stop a rest given => exact .stop a rest given
    | skip u rest _ next free canceled =>
        obtain ⟨marked, spared, hs, hself⟩ := hc.inOrder.forget_sheds u.seq
        have hq := c.tracker.forget_quiet u.seq
        refine .shed (e := [])
          ⟨rfl, by simp, rfl, rfl, hs, handed_quiet hq, fun sink fault _ s hm hf => ?_,
            fun y hm => ⟨stopped, hy y hm⟩⟩
        -- What waits in the queue is not in flight.
        rw [hself s hm] at hf
        exact absurd rfl (Nat.ne_of_lt ((List.pairwise_append.1 hc.lines).2.2 _ (hc.flying.subset hf) _
          (queued_next next ▸ List.mem_cons_self)))
    | launch | proceed | complete =>
        exact .ofHanded stopped hy (Emission.unanswered _ _ _) rfl rfl
    | stall => exact .ofIdle rfl (by simp) rfl rfl
    | miss u rest sent fault _ next free wanted put failed =>
        refine .ofGiveUp (w := { c.writer with queue := rest, encoder := sent.encoder }) hc stopped fault
          (Emission.unanswered _ _ _) (fun hf => ?_) hy
        exact absurd rfl (Nat.ne_of_lt ((List.pairwise_append.1 hc.lines).2.2 _ (hc.flying.subset hf) _
          (queued_next next ▸ List.mem_cons_self)))
    | lose f before behind piece sent fault _ flight body put failed =>
        exact .ofGiveUp (w := { c.writer with encoder := sent.encoder, active := before ++ behind })
          hc stopped fault (Emission.unanswered _ _ _) (Streamed.notFlying hc flight) hy
    | breakOff f before behind fault _ flight =>
        exact .ofGiveUp (w := { c.writer with active := before ++ behind }) (r := []) hc stopped
          fault (by simp) (Streamed.notFlying hc flight) hy
  · cases hw with
    | stop a rest given => exact .stop a rest given
    | _ => exact absurd ‹c.tracker.abandoned = []› stopped

theorem Move.conclusion (hc : Coherent h c) (hm : Move c x d) : Conclusion c x d := by
  cases hm with
  | enroll clock options request sink deadline room => exact .enroll clock options request sink deadline
  | refuse clock options request sink full => exact .refuse clock options request sink
  | write clock gone wrote => exact wrote.conclusion hc
  | idle e he =>
      refine .ofIdle (Quiet.ofIdle he).handed (fun sink fault hm => ?_) rfl rfl
      simpa [Happening.isIdle, Action.isIdle] using he _ hm
  | wire | sink | feed | fire => exact .ofIdle rfl (by simp) rfl rfl
  | expire now =>
      obtain ⟨marked, hs⟩ := c.tracker.expire_sheds now
      have hq := handed_quiet (c.tracker.expire_quiet now)
      exact .shed (e := []) ⟨rfl, by simp, rfl, rfl, hs, hq, by simp, by simp [track, hq]⟩
  | receive stream part =>
      obtain ⟨marked, spared, hs, hend⟩ := hc.inOrder.receive_sheds stream part
      have hx := receive_handed hc.inOrder stream part
      have hclose : ∀ sink fault, .answer sink (.failed fault)
          ∉ if (c.tracker.receive stream part).value.fault.isSome then [Action.call .close] else [] := by
        intro sink fault
        split <;> simp
      refine .shed (e := [.input (.response stream part)])
        ⟨rfl, by simp, rfl, rfl, hs.append hclose, hx, fun sink fault hm => ?_, by simp [hx]⟩
      have hm := (List.mem_append.1 hm).resolve_right (hclose sink fault)
      rcases hend with rfl | hnone
      · simp
      · exact absurd hm (hnone sink fault)

theorem Concludes.failed (hc : Coherent h c) {first : List Happening} {marked : List Abandoned}
    {spared : List Nat} {r : Traced Tracker} (hs : c.Concludes x d first marked spared r)
    {before behind : List Happening} {sink : Nat} {fault : Fault}
    (hx : x = before ++ .action (.answer sink (.failed fault)) :: behind) :
    HttpSession.handed behind = []
      ∧ ∃ p ∈ c.tracker.pending, p.sink = sink ∧ d.IsDone p.seq ∧ d.marks p.seq ≤ 1 := by
  obtain ⟨tail, rfl, htail⟩ : ∃ tail, before = first ++ tail
      ∧ ofActions r.actions = tail ++ .action (.answer sink (.failed fault)) :: behind :=
    (split_of_append_eq (hs.course.symm.trans hx)).resolve_left fun ⟨tail, hf, _⟩ =>
      hs.unanswered sink fault (by simp [hf])
  have hmem : .answer sink (.failed fault) ∈ r.actions :=
    Happening.action_mem_ofActions.1 (htail ▸ List.mem_append_right _ List.mem_cons_self)
  obtain ⟨p, hp, hsink, hshed⟩ := hs.sheds.failed sink fault hmem
  have hin := Tracker.mem_seqs hp
  have hunmarked : p.seq ∉ c.tracker.abandoned.map Abandoned.seq := fun hm => by
    obtain ⟨a, ha, he⟩ := List.mem_map.1 hm
    exact (hc.abandoned a ha).2 (he ▸ hin)
  refine ⟨?_, p, hp, hsink, ⟨⟨hs.dispatched ▸ hc.seqs_le hin, ?_⟩, fun hf => ?_⟩, ?_⟩
  · have hsilent := hs.silent
    rw [htail, handed_append] at hsilent
    exact (List.append_eq_nil_iff.1 hsilent).2
  · rw [hs.tracker]
    exact hs.sheds.not_mem_of_shed hc.inOrder hshed
  · rw [hs.tracker, hs.sheds.abandoned, List.map_append]
    refine List.mem_append_right _ ((List.mem_append.1 hshed).resolve_right fun hm => ?_)
    exact hs.grounded sink fault hmem p.seq hm hf
  · rw [marks, hs.tracker, hs.sheds.abandoned, List.map_append, List.count_append,
      List.count_eq_zero.2 hunmarked, Nat.zero_add]
    exact hs.sheds.count_marked hc.inOrder p.seq

namespace IsDone

theorem stop (hc : Coherent h c) (hd : c.IsDone seq) (a : Abandoned) {rest : List Abandoned}
    (given : c.tracker.abandoned = a :: rest) :
    (seq ∈ (c.writer.abandon a.seq a.reset).1.active.map InFlight.seq → seq ∈ rest.map Abandoned.seq)
      ∧ (∀ y ∈ handed (ofActions (c.writer.abandon a.seq a.reset).2), y.piece = .reset)
      ∧ (handed (ofActions (c.writer.abandon a.seq a.reset).2)).countP (·.seq == seq)
          + (rest.map Abandoned.seq).count seq ≤ c.marks seq := by
  have hrest : seq ∈ c.flying → seq ≠ a.seq → seq ∈ rest.map Abandoned.seq := by
    intro hf hne
    have hgiven := hd.2 hf
    rw [given, List.map_cons, List.mem_cons] at hgiven
    exact hgiven.resolve_left hne
  have hmarks : c.marks seq = (rest.map Abandoned.seq).count seq + if a.seq == seq then 1 else 0 := by
    rw [marks, given, List.map_cons, List.count_cons]
  rcases c.writer.abandon_cases a with ⟨hq, he⟩ | ⟨-, -, hactive, hx⟩
  · rw [he, hmarks]
    refine ⟨fun hf => hrest hf ?_, by simp, by simp⟩
    rintro rfl
    have hlaunched := hc.flying.subset hf
    exact absurd rfl (Nat.ne_of_lt ((List.pairwise_append.1 hc.lines).2.2 _ hlaunched _ hq))
  · refine ⟨fun hf => ?_, fun y hy => ?_, ?_⟩
    · rw [hactive] at hf
      have hflying : seq ∈ c.flying := (List.eraseP_sublist.map _).subset hf
      refine hrest hflying ?_
      rintro rfl
      exact Writer.not_mem_eraseP hc.flying_nodup _ hf
    · rw [hx] at hy
      split at hy
      · rw [List.mem_singleton.1 hy]
      · simp at hy
    · rw [hx, hmarks, Nat.add_comm]
      refine Nat.add_le_add_left ?_ _
      split
      · simp [List.countP_cons]
      · simp

theorem move (hc : Coherent h c) (hd : c.IsDone seq) (hm : Move c x d) :
    d.IsDone seq ∧ (∀ y ∈ handed x, y.seq = seq → y.piece = .reset)
      ∧ (handed x).countP (·.seq == seq) + d.marks seq ≤ c.marks seq := by
  obtain ⟨hlost, hout⟩ := hc.move_hasLost hd.1 hm
  cases hm.conclusion hc with
  | enroll clock options request sink deadline =>
      have hx := c.enroll_handed options request sink deadline
      have ha := c.enroll_abandoned options request sink deadline
      refine ⟨⟨hlost, fun hf => ?_⟩, by simp [hx], by simp [hx, marks, ha]⟩
      rw [ha]
      exact hd.2 hf
  | refuse clock options request sink =>
      have hx : handed [.input (.dispatch clock options request sink),
          .action (.answer sink (.failed Fault.closedSession))] = [] := rfl
      exact ⟨⟨hlost, hd.2⟩, by simp [hx], by simp [hx]⟩
  | stop a rest given =>
      obtain ⟨hrest, hresets, hcount⟩ := hd.stop hc a given
      exact ⟨⟨hlost, hrest⟩, fun y hy _ => hresets y hy, hcount⟩
  | shed hs =>
      have hnone : ∀ y ∈ handed x, y.seq ≠ seq := by
        rintro y hy rfl
        obtain ⟨stopped, hf | hin⟩ := hs.handed y hy
        · simpa [stopped] using hd.2 hf
        · exact hd.1.2 hin
      have hfly : seq ∈ d.flying → seq ∈ c.flying := by
        intro hf
        rcases hm.advance hc.inOrder (fun a ha => (hc.abandoned a ha).2) with
          ha | ⟨clock, options, request, sink, deadline, -, -, rfl⟩
        · exact (List.mem_append.1 (ha.flying.subset hf)).resolve_right hout
        · exact hf
      refine ⟨⟨hlost, fun hf => ?_⟩, fun y hy he => absurd he (hnone y hy), ?_⟩
      · rw [hs.tracker]
        exact List.map_subset _ hs.sheds.kept (hd.2 (hfly hf))
      · rw [List.countP_eq_zero.2 fun y hy => by simpa using hnone y hy, Nat.zero_add]
        rw [marks, hs.tracker, hs.sheds.count_unawaited hd.1.2]
        exact Nat.le_refl _

theorem path (hr : Reached h c) (hd : c.IsDone seq) (hp : Path Move c x d) :
    d.IsDone seq ∧ (∀ y ∈ handed x, y.seq = seq → y.piece = .reset)
      ∧ (handed x).countP (·.seq == seq) + d.marks seq ≤ c.marks seq := by
  induction hp with
  | refl => exact ⟨hd, by simp, by simp⟩
  | snoc hq hm ih =>
      obtain ⟨hdone, hbefore, hcount⟩ := ih
      obtain ⟨hdone', hafter, hcount'⟩ := hdone.move (hr.path hq).coherent hm
      refine ⟨hdone', fun y hy he => ?_, ?_⟩
      · rw [handed_append] at hy
        exact (List.mem_append.1 hy).elim (fun hy => hbefore y hy he) fun hy => hafter y hy he
      · rw [handed_append, List.countP_append]
        omega

end IsDone

end Traffic

end HttpSession
