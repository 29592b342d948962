import HttpSession.Proofs.Session.Accounts
import HttpSession.Proofs.Session.Ending

namespace HttpSession

open Happening (ofActions deeds)

namespace Accounts

variable {owed left : List Debt} {actions : List Action} {d : Debt}

theorem unpaid_of_left (h : Accounts owed actions left) (hn : owed.Nodup) (hd : d ∈ left) :
    d ∉ actions.filterMap Action.pays? := fun hp =>
  (List.nodup_append.1 (h.nodup_iff.2 hn)).2.2 d hp d hd rfl

end Accounts

theorem Writer.abandon_unanswered (w : Writer) (a : Abandoned) (sink : Nat) (reply : Reply) :
    .answer sink reply ∉ (w.abandon a.seq a.reset).2 := by
  unfold Writer.abandon
  split
  · simp
  · dsimp only
    split
    · exact Emission.unanswered _ _ _ sink reply
    · simp

theorem TimerLoop.run_isQuiet (timer : Timer) (clock : Clock) (v : TimerLoop) :
    ∀ a ∈ (v.run timer clock).actions, a.isQuiet = true := by
  induction v using TimerLoop.run.induct timer clock with
  | case1 v later hcheck => simp [run_quiet hcheck]
  | case2 v text hcheck => simp [run_broken hcheck]
  | case3 v deadline hcheck expired ih =>
      rw [run_due hcheck]
      intro a ha
      refine (List.mem_append.1 ha).elim (fun ha => ?_) (ih a)
      exact Tracker.expire_quiet _ _ a (by simpa [expired] using ha)

namespace Traffic

variable {c d e : Traffic} {h x before behind : List Happening} {seq : Nat} {clock : Clock}
  {gone : Nat → Bool}

theorem Reached.split {y : Happening} (hr : Reached (before ++ y :: behind) e) :
    Quiet before ∨ ∃ c₁ c₂ a₁ a₂ b₁ b₂, before = a₁ ++ a₂ ∧ behind = b₁ ++ b₂ ∧ Reached a₁ c₁
      ∧ Move c₁ (a₂ ++ y :: b₁) c₂ ∧ Path Move c₂ b₂ e := by
  generalize hall : before ++ y :: behind = all at hr
  induction hr generalizing behind with
  | fresh quiet => exact .inl fun a ha => quiet a (hall ▸ List.mem_append_left _ ha)
  | @move h x d e hr hm ih =>
      rcases split_of_append_eq hall.symm with ⟨tail, hh, rfl⟩ | ⟨a₂, rfl, rfl⟩
      · refine (ih hh.symm).imp_right ?_
        rintro ⟨c₁, c₂, a₁, a₂, b₁, b₂, ha, rfl, hfirst, hstep, hlast⟩
        exact ⟨c₁, c₂, a₁, a₂, b₁, b₂ ++ x, ha, List.append_assoc .., hfirst, hstep, hlast.snoc hm⟩
      · exact .inr ⟨d, e, h, a₂, behind, [], rfl, by simp, hr, hm, .refl e⟩

theorem Path.awaited (hr : Reached h c) (hp : Path (Write clock gone) c x d) :
    d.tracker.awaited.Sublist c.tracker.awaited := by
  induction hp with
  | refl => exact .refl _
  | snoc hq hw ih =>
      have hr' := hr.path (hq.mono (.write clock gone))
      exact (hw.advance fun a ha => (hr'.coherent.abandoned a ha).2).tracker.awaited.trans ih

theorem Reached.callers (hr : Reached h c) :
    ((enrolled h).map fun p => Debt.reply p.2).Sublist (incurred h) := by
  induction hr with
  | fresh quiet => simp [quiet.enrolled]
  | @move h x c d hr hm ih =>
      rw [enrolled_append, List.map_append, incurred_append]
      refine ih.append ?_
      have hc := hr.coherent
      rcases hm.advance hc.inOrder (fun a ha => (hc.abandoned a ha).2) with
        ha | ⟨clock, options, request, sink, deadline, room, rfl, rfl⟩
      · simp [ha.enrolled]
      · simp [enrolled_enroll, Input.debts]

end Traffic

namespace Action

def isHeaders : Action → Bool
  | .encode _ piece _ => piece.isHeaders
  | _ => false

theorem not_isHeaders_of_isQuiet {a : Action} (h : a.isQuiet = true) : ¬a.isHeaders = true := by
  cases a with
  | encode => simp [isQuiet, isIdle] at h
  | _ => simp [isHeaders]

end Action

namespace Emission

theorem not_isHeaders (sent : Emission) (seq : Nat) {piece : Piece} (hp : piece.isHeaders = false) :
    ∀ a ∈ sent.actions seq piece, ¬a.isHeaders = true := by
  intro a ha
  rcases List.mem_append.1 ha with ha | ha
  · obtain ⟨c, -, rfl⟩ := List.mem_map.1 ha
    simp [Action.isHeaders]
  · obtain rfl := List.mem_singleton.1 ha
    simpa [Action.isHeaders] using hp

theorem headers_split {sent : Emission} {seq s : Nat} {piece : Piece} {head : Head} {last ok : Bool}
    {r : List Action} (hr : ∀ a ∈ r, ¬a.isHeaders = true) {before behind : List Happening}
    (h : before ++ .action (.encode seq (.headers head last) ok) :: behind
      = ofActions (sent.actions s piece ++ r)) :
    s = seq ∧ before = ofActions (sent.calls.map .call) := by
  obtain ⟨xs, ys, hsplit, rfl, -⟩ := Happening.ofActions_eq_append_cons h.symm
  rw [Emission.actions, List.append_assoc, List.singleton_append] at hsplit
  have hcalls : ∀ a ∈ sent.calls.map Action.call, ¬a.isHeaders = true := by
    intro a ha
    obtain ⟨c, -, rfl⟩ := List.mem_map.1 ha
    simp [Action.isHeaders]
  obtain ⟨rfl, hmark, -⟩ := eq_of_append_eq_append (p := fun a => a.isHeaders = true) hcalls hr
    rfl hsplit
  exact ⟨(Action.encode.inj hmark).1, rfl⟩

end Emission

namespace Traffic

variable {c d e : Traffic} {h x before behind : List Happening} {seq : Nat} {clock : Clock}
  {gone : Nat → Bool} {head : Head} {last ok : Bool}

theorem giveUp_not_isHeaders (c : Traffic) (seq : Nat) (fault : Fault) :
    ∀ a ∈ (c.giveUp seq fault).actions, ¬a.isHeaders = true := by
  intro a ha
  rcases List.mem_append.1 ha with ha | ha
  · exact Emission.not_isHeaders _ seq rfl a ha
  · exact Action.not_isHeaders_of_isQuiet (Tracker.fail_quiet _ seq fault a ha)

theorem no_headers {actions : List Action} (hn : ∀ a ∈ actions, ¬a.isHeaders = true) :
    before ++ .action (.encode seq (.headers head last) ok) :: behind ≠ ofActions actions := by
  intro heq
  obtain ⟨xs, ys, rfl, -, -⟩ := Happening.ofActions_eq_append_cons heq.symm
  exact hn (.encode seq (.headers head last) ok) (by simp) rfl

theorem Write.opening (hc : Coherent h c)
    (hw : Write clock gone c (before ++ .action (.encode seq (.headers head last) ok) :: behind) d) :
    c.tracker.isCanceled gone seq = false ∧ seq ∈ c.queued
      ∧ (∃ calls : List Call, before = ofActions (calls.map .call))
      ∧ (seq ∈ launched (before ++ .action (.encode seq (.headers head last) ok) :: behind)
        ∨ d.HasLost seq) := by
  generalize hx : before ++ .action (.encode seq (.headers head last) ok) :: behind = x at hw ⊢
  cases hw with
  | stop a rest given =>
      refine absurd hx (no_headers fun b hb => ?_)
      unfold Writer.abandon at hb
      split at hb
      · simp at hb
      · dsimp only at hb
        split at hb
        · exact Emission.not_isHeaders _ _ rfl b hb
        · simp at hb
  | skip u rest =>
      exact absurd hx (no_headers fun a ha =>
        Action.not_isHeaders_of_isQuiet (c.tracker.forget_quiet u.seq a ha))
  | launch u rest sent stopped next free wanted put ok =>
      obtain ⟨rfl, hbefore⟩ := Emission.headers_split (r := []) (by simp) (by simpa using hx)
      exact ⟨wanted, queued_next next ▸ List.mem_cons_self, ⟨_, hbefore⟩,
        .inl (by simp [sent.launched_of_headers ok])⟩
  | miss u rest sent fault stopped next free wanted put failed =>
      obtain ⟨rfl, hbefore⟩ := Emission.headers_split (giveUp_not_isHeaders _ _ _) hx
      exact ⟨wanted, queued_next next ▸ List.mem_cons_self, ⟨_, hbefore⟩,
        .inr ⟨hc.seqs_le (Tracker.mem_seqs_of_wanted wanted), Tracker.fail_seqs _ _ _⟩⟩
  | proceed f before behind octets rest sent =>
      exact absurd hx (no_headers (sent.not_isHeaders _ rfl))
  | stall => simp at hx
  | complete f before behind piece sent stopped flight final =>
      refine absurd hx (no_headers (sent.not_isHeaders _ ?_))
      cases piece <;> simp_all [Piece.isFinal, Piece.isHeaders]
  | lose f before behind piece sent fault stopped flight body =>
      refine absurd hx (no_headers fun a ha => ?_)
      rcases List.mem_append.1 ha with ha | ha
      · refine sent.not_isHeaders _ ?_ a ha
        cases piece <;> simp_all [Piece.isBody, Piece.isHeaders]
      · exact giveUp_not_isHeaders _ _ _ a ha
  | breakOff f before behind fault =>
      exact absurd hx (no_headers (giveUp_not_isHeaders _ _ _))

theorem Move.write_of_handed (hc : Coherent h c) (hm : Move c x d) {y : Handed} (hy : y ∈ handed x) :
    ∃ clock gone, Write clock gone c x d := by
  have hsome : handed x ≠ [] := List.ne_nil_of_mem hy
  cases hm with
  | write clock gone wrote => exact ⟨clock, gone, wrote⟩
  | idle e he => exact absurd (Quiet.ofIdle he).handed hsome
  | enroll clock options request sink deadline room =>
      exact absurd (enroll_handed c options request sink deadline) hsome
  | refuse | wire | sink | feed | fire => exact absurd rfl hsome
  | receive stream part => exact absurd (receive_handed hc.inOrder stream part) hsome
  | expire now => exact absurd (handed_quiet (c.tracker.expire_quiet now)) hsome

theorem exists_split_of_handed {y : Handed} (hy : y ∈ handed x) :
    ∃ before behind, x = before ++ .action (.encode y.seq y.piece y.ok) :: behind := by
  obtain ⟨z, hz, hhanded⟩ := List.mem_filterMap.1 hy
  obtain rfl : z = .action (.encode y.seq y.piece y.ok) := by
    unfold Happening.handed? at hhanded
    split at hhanded
    · obtain rfl := Option.some.inj hhanded
      rfl
    · simp at hhanded
  exact List.append_of_mem hz

theorem Reached.opened (hr : Reached h c) :
    ∀ s ∈ HttpSession.opened (handed h), s ∈ launched h ∨ c.HasLost s := by
  induction hr with
  | fresh quiet => simp [quiet.handed, HttpSession.opened]
  | @move h x c d hr hm ih =>
      have hc := hr.coherent
      intro s hs
      rw [handed_append, HttpSession.opened, List.filterMap_append, List.mem_append] at hs
      rw [launched_append, List.mem_append, or_assoc]
      rcases hs with hs | hs
      · exact (ih s hs).imp_right fun hlost => .inr (hc.move_hasLost hlost hm).1
      · obtain ⟨y, hy, hopens⟩ := List.mem_filterMap.1 hs
        obtain ⟨clock, gone, hw⟩ := hm.write_of_handed hc hy
        obtain ⟨before, behind, rfl⟩ := exists_split_of_handed hy
        obtain ⟨t, piece, ok⟩ := y
        cases piece with
        | headers head last =>
            obtain rfl : t = s := by simpa [Handed.opens?, Piece.isHeaders] using hopens
            exact .inr (hw.opening hc).2.2.2
        | _ => simp [Handed.opens?, Piece.isHeaders] at hopens

theorem Reached.notOpened (hr : Reached h c) (hq : seq ∈ c.queued) (hs : seq ∈ c.tracker.seqs) :
    seq ∉ HttpSession.opened (handed h) := fun ho => by
  rcases hr.opened seq ho with hl | hlost
  · exact absurd rfl (Nat.ne_of_lt ((List.pairwise_append.1 hr.coherent.lines).2.2 seq hl seq hq))
  · exact hlost.2 hs

theorem enroll_unfailed (c : Traffic) (options : Options) (request : Request) (sink : Nat)
    (deadline : Option Instant) (caller : Nat) (fault : Fault) :
    .answer caller (.failed fault) ∉ (c.enroll options request sink deadline).actions := by
  simp only [enroll, List.mem_cons, reduceCtorEq, false_or]
  split
  · exact Tracker.closeIfDrained_not_failed _ _ _
  · simp

theorem Move.failed (hc : Coherent h c) {sink : Nat} {fault : Fault}
    (hm : Move c (before ++ .action (.answer sink (.failed fault)) :: behind) d) :
    enrolled before = [] ∧ handed behind = []
      ∧ (.reply sink ∈ incurred before
        ∨ ∃ p ∈ c.tracker.pending, p.sink = sink ∧ d.IsDone p.seq ∧ d.marks p.seq ≤ 1) := by
  generalize hx : before ++ .action (.answer sink (.failed fault)) :: behind = x at hm
  refine ⟨?_, ?_⟩
  · rcases hm.advance hc.inOrder (fun a ha => (hc.abandoned a ha).2) with
      ha | ⟨clock, options, request, caller, deadline, room, rfl, rfl⟩
    · have hnone := ha.enrolled
      rw [← hx, enrolled_append] at hnone
      exact (List.append_eq_nil_iff.1 hnone).1
    · have hmem : .action (.answer sink (.failed fault))
          ∈ before ++ .action (.answer sink (.failed fault)) :: behind := by simp
      rw [hx] at hmem
      exact absurd (by simpa using hmem) (enroll_unfailed c options request caller deadline sink fault)
  cases hm.conclusion hc with
  | enroll clock options request caller deadline =>
      have hmem : .action (.answer sink (.failed fault))
          ∈ before ++ .action (.answer sink (.failed fault)) :: behind := by simp
      rw [hx] at hmem
      exact absurd (by simpa using hmem) (enroll_unfailed c options request caller deadline sink fault)
  | refuse clock options request caller =>
      have hcut : [.input (.dispatch clock options request caller)]
          ++ .action (.answer caller (.failed Fault.closedSession)) :: []
          = before ++ .action (.answer sink (.failed fault)) :: behind := hx.symm
      obtain ⟨rfl, hanswer, rfl⟩ := eq_of_append_eq_append (p := fun y => ∃ a, y = Happening.action a)
        (by simp) (by simp) ⟨_, rfl⟩ hcut
      obtain ⟨rfl, -⟩ := Action.answer.inj (Happening.action.inj hanswer)
      exact ⟨rfl, .inl List.mem_cons_self⟩
  | stop a rest given =>
      obtain ⟨xs, ys, hsplit, -, -⟩ := Happening.ofActions_eq_append_cons hx.symm
      exact absurd (hsplit ▸ by simp) (c.writer.abandon_unanswered a sink (.failed fault))
  | shed hs =>
      obtain ⟨hsilent, hlost⟩ := hs.failed hc hx.symm
      exact ⟨hsilent, .inr hlost⟩

end Traffic

namespace Session

open Traffic (Coherent Path Reached Write)

variable {s : Session} {inputs : List Input} {before behind : List Happening}

theorem incurred_history (s : Session) (inputs : List Input) :
    incurred (s.history inputs) = inputs.flatMap Input.debts := by
  induction inputs generalizing s with
  | nil => rfl
  | cons i rest ih => simp [ih]

theorem Stands.settles_after {h : List Happening} (hs : s.Stands h) (inputs : List Input) :
    Accounts (inputs.flatMap Input.debts ++ s.debts) (deeds (s.history inputs)) (s.after inputs).debts := by
  induction inputs generalizing s h with
  | nil => exact .refl
  | cons i rest ih =>
      have hlater := ih (s := (s.step i).value) ((hs.respond i).ofChannel _)
      have hnow := (hs.settles i).beside (rest.flatMap Input.debts)
      have hboth := hnow.trans hlater
      refine Accounts.perm_owed (by simpa using hboth) ?_
      rw [List.flatMap_cons, ← List.append_assoc]
      exact List.perm_append_comm.append_right _

theorem history_turn {earlier : List Input} {i : Input} {actions : List Action}
    (h : ((s.after earlier).respond i).actions = actions) (later : List Input) :
    s.history (earlier ++ i :: later)
      = s.history earlier ++ (.input i :: ofActions actions ++ (s.after (earlier ++ [i])).history later) := by
  rw [history_append, after_append, history_cons, step_actions, h]
  rfl

theorem history_split {a : Action} (h : s.history inputs = before ++ .action a :: behind) :
    ∃ earlier i later xs ys, inputs = earlier ++ i :: later
      ∧ ((s.after earlier).respond i).actions = xs ++ a :: ys
      ∧ before = s.history earlier ++ .input i :: ofActions xs := by
  induction inputs generalizing s before with
  | nil => simp at h
  | cons i rest ih =>
      rw [history_cons, List.cons_append] at h
      cases before with
      | nil => simp at h
      | cons z before =>
          rw [List.cons_append] at h
          obtain ⟨rfl, hrest⟩ := List.cons.inj h
          rcases split_of_append_eq hrest with ⟨tail, ha, -⟩ | ⟨tail, rfl, ht⟩
          · obtain ⟨xs, ys, hactions, rfl, -⟩ := Happening.ofActions_eq_append_cons ha
            exact ⟨[], i, rest, xs, ys, rfl, hactions, rfl⟩
          · obtain ⟨earlier, j, later, xs, ys, rfl, hactions, rfl⟩ := ih ht
            exact ⟨i :: earlier, j, later, xs, ys, rfl, hactions, by simp⟩

theorem respond_handed {c : Traffic} (ht : s.traffic? = some c) (hc : c.tracker.InOrder) {i : Input}
    (hi : ∀ clock gone, i ≠ .write clock gone) : handed (ofActions (s.respond i).actions) = [] := by
  cases i with
  | write clock gone => exact absurd rfl (hi clock gone)
  | negotiated promise reachable p => exact handed_quiet (onNegotiated_quiet s promise reachable p)
  | negotiationFailed fault => exact handed_quiet (onNegotiationFailed_quiet s fault)
  | closed promise => exact handed_quiet (onTransportClosed_quiet s promise)
  | dropped reason => exact handed_quiet (abandon_quiet s reason)
  | dispatch clock options request sink =>
      simp only [respond, Traced.actions_bind, Traced.actions_pure, List.append_nil]
      cases hroom : c.hasRoom with
      | true =>
          rw [(dispatch_of_room ht hroom clock options request sink).2]
          exact Traffic.enroll_handed c options request sink _
      | false =>
          rw [dispatch_of_full ht hroom]
          rfl
  | response stream part =>
      rw [(response_established ht stream part).2]
      exact Traffic.receive_handed hc stream part
  | keepTime clock =>
      rw [respond, keepTime_of_established (traffic?_eq_some ht).1]
      refine handed_quiet fun a ha => ?_
      simp only [Traced.actions_bind, Traced.actions_pure, List.append_nil, List.mem_append] at ha
      exact ha.elim (fun ha => Action.isQuiet_of_isIdle (keepNegotiation_idle s clock a ha))
        (TimerLoop.run_isQuiet _ _ _ a)
  | message m =>
      simp only [respond, onMessage]
      split <;> rfl
  | transportError e =>
      simp only [respond, onTransportError, Traced.actions_bind]
      split <;> rfl
  | _ => rfl

theorem IsNew.unanswered (hs : s.IsNew) {earlier : List Input}
    (own : (earlier.flatMap Input.debts).Nodup) {c d : Traffic} (ht : (s.after earlier).traffic? = some c)
    {actions : List Action} (hp : Path Traffic.Move c (ofActions actions) d) {p : Pending}
    (hin : p ∈ d.tracker.pending) (reply : Reply) :
    .action (.answer p.sink reply) ∉ s.history earlier ++ ofActions actions := by
  obtain ⟨phase, unused, silent, -⟩ := hs.start
  have hbefore := Stands.settles_after (.negotiating phase unused silent .nil) earlier
  rw [debts_of_none (traffic?_eq_none.2 (.inl phase)), List.append_nil, debts_of_traffic ht] at hbefore
  have hturn := hp.settles (hs.established earlier ht).1
  rw [Traffic.Settles, incurred_ofActions, List.nil_append] at hturn
  rw [Happening.action_mem_iff, Happening.deeds_append]
  intro hmem
  refine (hbefore.trans hturn).unpaid_of_left own (d := .reply p.sink) (List.mem_map_of_mem hin) ?_
  exact List.mem_filterMap.2 ⟨_, hmem, rfl⟩

/-- In a turn of writing the headers of a request are handed over for the first time. Its response is
awaited, and was not answered in the turn, and its caller holds on to it. -/
structure Opens (s : Session) (inputs : List Input) (before : List Happening) (seq : Nat)
    (earlier : List Input) (clock : Clock) (gone : Nat → Bool) (done : List Action) (sink : Nat) :
    Prop where
  turn : ∃ later, inputs = earlier ++ .write clock gone :: later
  reached : before = s.history earlier ++ .input (.write clock gone) :: ofActions done
  awaited : ∃ t, (s.after earlier).tracker? = some t ∧ (seq, sink) ∈ t.awaited
  unanswered : ∀ reply, .action (.answer sink reply) ∉ before
  held : gone sink = false
  first : seq ∉ opened (handed before)

theorem IsNew.opens (hs : s.IsNew) (own : (inputs.flatMap Input.debts).Nodup) {seq : Nat} {head : Head}
    {last ok : Bool}
    (h : s.history inputs = before ++ .action (.encode seq (.headers head last) ok) :: behind) :
    ∃ earlier clock gone done sink, s.Opens inputs before seq earlier clock gone done sink := by
  obtain ⟨earlier, i, later, xs, ys, rfl, hactions, rfl⟩ := history_split h
  have hencode : .encode seq (.headers head last) ok ∈ ((s.after earlier).respond i).actions := by
    simp [hactions]
  have hsome : handed (ofActions ((s.after earlier).respond i).actions) ≠ [] :=
    List.ne_nil_of_mem (List.mem_filterMap.2
      ⟨_, Happening.action_mem_ofActions.2 hencode, rfl⟩)
  cases ht : (s.after earlier).traffic? with
  | none => exact absurd (handed_quiet (respond_quiet ht i)) hsome
  | some c =>
      have hr := (hs.established earlier ht).1
      obtain ⟨clock, gone, rfl⟩ : ∃ clock gone, i = .write clock gone := by
        by_contra hi
        exact hsome (respond_handed ht hr.coherent.inOrder fun clock gone he => hi ⟨clock, gone, he⟩)
      -- The turn itself is part of the history before anything is done in it.
      have hr₀ := hr.move (.idle [.input (.write clock gone)] (by simp [Happening.isIdle, Input.isIdle]))
      have hpath := Traffic.written_path clock gone c
      dsimp only at hpath
      rw [← (write_established ht clock gone).2, hactions, Happening.ofActions_append,
        Happening.ofActions_cons] at hpath
      obtain ⟨c₁, c₂, a₁, a₂, b₁, b₂, hbefore, -, hfirst, hstep, -⟩ := hpath.split
      have hr₁ := hr₀.path (hfirst.mono (.write clock gone))
      obtain ⟨hwanted, hqueued, ⟨calls, rfl⟩, -⟩ := hstep.opening hr₁.coherent
      obtain ⟨p, hp, hseq, hheld⟩ : ∃ p ∈ c₁.tracker.pending, p.seq = seq ∧ gone p.sink = false := by
        unfold Tracker.isCanceled at hwanted
        split at hwanted
        · rename_i p hfind
          obtain ⟨hp, hseq⟩ := Tracker.find?_eq_some hfind
          exact ⟨p, hp, hseq, hwanted⟩
        · simp at hwanted
      subst hseq
      obtain ⟨done, _, rfl, rfl, hcalls⟩ := List.map_eq_append_iff.1 hbefore
      obtain rfl := List.map_injective_iff.2 (fun _ _ => Happening.action.inj) hcalls
      rw [List.flatMap_append] at own
      have hanswered := hs.unanswered (List.nodup_append.1 own).1 ht (hfirst.mono (.write clock gone)) hp
      refine ⟨earlier, clock, gone, _, p.sink, ⟨later, rfl⟩, rfl, ⟨c.tracker, ?_, ?_⟩, fun reply hm => ?_,
        hheld, ?_⟩
      · simp [tracker?, (traffic?_eq_some ht).1]
      · exact (hfirst.awaited hr₀).subset (Tracker.mem_awaited hp)
      · refine hanswered reply ?_
        simpa using hm
      · have hnew := hr₁.notOpened hqueued (Tracker.mem_seqs hp)
        have hnone : handed (ofActions (calls.map .call)) = [] := handed_eq_nil (by simp [Happening.handed?])
        change p.seq ∉ opened (handed (_ ++ ofActions done)) at hnew
        simpa [hnone] using hnew

theorem IsNew.over (hs : s.IsNew) (own : (inputs.flatMap Input.debts).Nodup) {sink : Nat} {fault : Fault}
    (h : s.history inputs = before ++ .action (.answer sink (.failed fault)) :: behind) {seq : Nat}
    (henrolled : (seq, sink) ∈ enrolled before) :
    (∀ y ∈ handed behind, y.seq = seq → y.piece = .reset)
      ∧ (handed behind).countP (·.seq == seq) ≤ 1 := by
  obtain ⟨course, rest, c, hall, hr, hquiet, -⟩ := hs.reached inputs
  rw [← incurred_history s inputs, h] at own
  rw [h] at hall
  rcases split_of_append_eq hall.symm with ⟨tail, rfl, rfl⟩ | ⟨tail, rfl, rfl⟩
  · rw [handed_append, hquiet.handed, List.append_nil]
    rcases hr.split with hbefore | ⟨c₁, c₂, a₁, a₂, b₁, b₂, rfl, rfl, hr₁, hm, hp⟩
    · simp [hbefore.enrolled] at henrolled
    · obtain ⟨hnone, hsilent, hcase⟩ := hm.failed hr₁.coherent
      rw [enrolled_append, hnone, List.append_nil] at henrolled
      simp only [List.append_assoc, incurred_append] at own
      obtain ⟨hown, -, hapart⟩ := List.nodup_append.1 own
      obtain hin | ⟨p, hp', rfl, hdone, hmarks⟩ := hcase
      · have hearlier := hr₁.callers.subset (List.mem_map_of_mem henrolled)
        exact absurd rfl (hapart _ hearlier _ (List.mem_append_left _ hin))
      · have hsame : (p.seq, p.sink) = (seq, p.sink) :=
          List.inj_on_of_nodup_map (hown.sublist hr₁.callers)
            (hr₁.coherent.awaited _ (Tracker.mem_awaited hp')) henrolled rfl
        obtain ⟨rfl, -⟩ := Prod.mk.inj hsame
        obtain ⟨-, hresets, hcount⟩ := hdone.path (hr₁.move hm) hp
        rw [handed_append, hsilent, List.nil_append]
        exact ⟨hresets, by omega⟩
  · have hnone : handed behind = [] := by
      refine Quiet.handed fun a ha => hquiet a ?_
      exact List.mem_append_right _ (List.mem_cons_of_mem _ ha)
    simp [hnone]

/-- The headers of a request are handed over once, while its response is outstanding and its caller
has not gone. After its failure was told to the caller nothing of it is handed over but one reset. -/
theorem silent_of_failure (hs : s.IsNew) (own : (inputs.flatMap Input.debts).Nodup) :
    (∀ before seq head last ok behind,
        s.history inputs = before ++ .action (.encode seq (.headers head last) ok) :: behind →
        ∃ earlier clock gone done sink, s.Opens inputs before seq earlier clock gone done sink)
      ∧ ∀ before sink fault behind seq,
        s.history inputs = before ++ .action (.answer sink (.failed fault)) :: behind →
        (seq, sink) ∈ enrolled before →
        (∀ y ∈ handed behind, y.seq = seq → y.piece = .reset)
          ∧ (handed behind).countP (·.seq == seq) ≤ 1 := by
  constructor
  · intro before seq head last ok behind h
    exact hs.opens own h
  · intro before sink fault behind seq h henrolled
    exact hs.over own h henrolled

def overlong : List Input :=
  [.negotiated .new true .h2,
    .dispatch ⟨0, 0, fun _ => false⟩ { Options.default with maxLength := 1 }
      { Request.bare with body := ⟨0, [], false, false⟩ } 7,
    turn, .response (some 1) (.head ⟨200, .empty⟩), .response (some 1) (.data (ascii "xy")), turn]

theorem silent_of_failure_overlong :
    (overlong.flatMap Input.debts).Nodup
      ∧ (∃ before behind, (blank 2).history overlong
            = before ++ .action (.encode 1 (.headers Request.bare.head false) true) :: behind
          ∧ ∃ earlier clock gone done sink,
            (blank 2).Opens overlong before 1 earlier clock gone done sink)
      ∧ ∃ before behind, (blank 2).history overlong
          = before ++ .action (.answer 7 (.failed Fault.tooLarge)) :: behind
        ∧ (1, 7) ∈ enrolled before ∧ handed behind = [⟨1, .reset, true⟩]
        ∧ (∀ y ∈ handed behind, y.seq = 1 → y.piece = .reset)
        ∧ (handed behind).countP (·.seq == 1) ≤ 1 := by
  have own : (overlong.flatMap Input.debts).Nodup := by decide
  obtain ⟨hopens, hover⟩ := silent_of_failure (blank_isNew 2) own
  refine ⟨own, ?_, ?_⟩
  · have hacts : (((blank 2).after (overlong.take 2)).respond turn).actions
        = [.call (.headers 1 (Http2.carried Request.bare.head) false true),
          .encode 1 (.headers Request.bare.head false) true] := by
      decide +kernel
    have hsplit : (blank 2).history overlong
        = ((blank 2).history (overlong.take 2)
            ++ [.input turn, .action (.call (.headers 1 (Http2.carried Request.bare.head) false true))])
          ++ .action (.encode 1 (.headers Request.bare.head false) true)
            :: ((blank 2).after (overlong.take 2 ++ [turn])).history (overlong.drop 3) := by
      rw [List.append_assoc]
      exact history_turn hacts (overlong.drop 3)
    exact ⟨_, _, hsplit, hopens _ _ _ _ _ _ hsplit⟩
  · have hacts : (((blank 2).after (overlong.take 4)).respond
        (.response (some 1) (.data (ascii "xy")))).actions = [.answer 7 (.failed Fault.tooLarge)] := by
      decide +kernel
    have hsplit : (blank 2).history overlong
        = ((blank 2).history (overlong.take 4) ++ [.input (.response (some 1) (.data (ascii "xy")))])
          ++ .action (.answer 7 (.failed Fault.tooLarge))
            :: ((blank 2).after (overlong.take 4 ++ [.response (some 1) (.data (ascii "xy"))])).history
              [turn] := by
      rw [List.append_assoc]
      exact history_turn hacts [turn]
    have henrolled : (1, 7) ∈ enrolled ((blank 2).history (overlong.take 4)
        ++ [.input (.response (some 1) (.data (ascii "xy")))]) := by
      decide +kernel
    exact ⟨_, _, hsplit, henrolled, by decide +kernel, hover _ _ _ _ _ hsplit henrolled⟩

end Session

end HttpSession
