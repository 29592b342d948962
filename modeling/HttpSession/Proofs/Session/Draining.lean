import HttpSession.Proofs.Session.Failure
import HttpSession.Proofs.Session.Negotiation
import HttpSession.Proofs.Tracker.Draining

namespace HttpSession

open Happening (ofActions deeds)

theorem Http1.writeAll_unclosed (wire : Wire) (octets : List Octets) :
    .close ∉ (Http1.writeAll wire octets).2.1 := by
  induction octets generalizing wire with
  | nil => simp [Http1.writeAll]
  | cons o rest ih =>
      unfold Http1.writeAll
      split
      · simp
      · simpa using ih _

theorem Http2.send_unclosed (sink : FrameSink) {call : Bool → Call} (h : ∀ ok, .close ≠ call ok) :
    .close ∉ (Http2.send sink call).2.1 := by
  unfold Http2.send
  split <;> simp [h]

theorem Encoder.put_unclosed (encoder : Encoder) (seq : Nat) (piece : Piece) :
    .call .close ∉ (encoder.put seq piece).actions seq piece := by
  have hcalls : .close ∉ (encoder.put seq piece).calls := by
    cases encoder with
    | http1 framing wire =>
        cases piece with
        | reset => simp [put, reset]
        | _ => exact Http1.writeAll_unclosed _ _
    | http2 sink =>
        cases piece with
        | reset => simp [put, reset]
        | _ => exact Http2.send_unclosed _ (by simp)
  simpa [Emission.actions] using hcalls

theorem Writer.abandon_unclosed (w : Writer) (seq : Nat) (reset : Bool) :
    .call .close ∉ (w.abandon seq reset).2 := by
  unfold abandon
  split
  · simp
  · dsimp only
    split
    · exact Encoder.put_unclosed _ _ _
    · simp

namespace Traffic

variable {c d : Traffic} {h x : List Happening} {clock : Clock} {gone : Nat → Bool}

theorem giveUp_drains (c : Traffic) (seq : Nat) (fault : Fault) :
    c.tracker.Drains ⟨(c.giveUp seq fault).value.tracker, (c.giveUp seq fault).actions⟩ :=
  (c.tracker.fail_drains seq fault).after (Encoder.put_unclosed _ _ _)

theorem Write.drains (hw : Write clock gone c x d) : c.tracker.Drains ⟨d.tracker, deeds x⟩ := by
  cases hw with
  | stop a rest given =>
      rw [Happening.deeds_ofActions]
      exact .goesOn (c.writer.abandon_unclosed _ _) id
  | skip u rest =>
      rw [Happening.deeds_ofActions]
      exact c.tracker.forget_drains u.seq
  | launch u rest sent stopped next free wanted put ok =>
      rw [Happening.deeds_ofActions]
      exact .goesOn (put ▸ Encoder.put_unclosed _ _ _) id
  | miss u rest sent fault stopped next free wanted put failed =>
      rw [Happening.deeds_ofActions]
      exact (giveUp_drains ((c.queue rest).encode sent.encoder) u.seq fault).after
        (put ▸ Encoder.put_unclosed _ _ _)
  | proceed f before behind octets rest sent stopped flight frame put ok =>
      rw [Happening.deeds_ofActions]
      exact .goesOn (put ▸ Encoder.put_unclosed _ _ _) id
  | stall => exact c.tracker.pure_drains
  | complete f before behind piece sent stopped flight final put ok =>
      rw [Happening.deeds_ofActions]
      exact .goesOn (put ▸ Encoder.put_unclosed _ _ _) id
  | lose f before behind piece sent fault stopped flight body put failed =>
      rw [Happening.deeds_ofActions]
      exact (giveUp_drains ((c.encode sent.encoder).fly (before ++ behind)) f.seq fault).after
        (put ▸ Encoder.put_unclosed _ _ _)
  | breakOff f before behind fault =>
      rw [Happening.deeds_ofActions]
      exact giveUp_drains (c.fly (before ++ behind)) f.seq fault

theorem enroll_drains (c : Traffic) (options : Options) (request : Request) (sink : Nat)
    (deadline : Option Instant) :
    c.tracker.Drains ⟨(c.enroll options request sink deadline).value.tracker,
      (c.enroll options request sink deadline).actions⟩ := by
  unfold enroll
  dsimp only
  split
  · have hnumber : .call .close ∉ [Action.enroll (c.dispatched + 1) sink] := by simp
    exact Tracker.closeIfDrained_drains (u := { c.tracker.register _ _ _ _ with draining := true })
      hnumber id
  · refine .goesOn (by simp) fun hs => Tracker.isSpent_of_desynced ?_
    exact (c.tracker.register_isSpent _ _ _ _).symm.trans hs

theorem Move.told (hm : Move c x d) (hs : d.tracker.isSpent = true) :
    c.tracker.isSpent = true ∨ .call .close ∈ deeds x := by
  cases hm with
  | idle | refuse | wire | sink | feed | fire => exact .inl hs
  | enroll clock options request sink deadline =>
      simpa using (c.enroll_drains options request sink deadline).told hs
  | receive stream part =>
      refine ((c.tracker.receive_drains stream part).told hs).imp_right fun hclose => ?_
      simpa [Traffic.receive] using Or.inl hclose
  | expire now =>
      rw [Happening.deeds_ofActions]
      exact (c.tracker.expire_drains now).told hs
  | write clock gone wrote => exact wrote.drains.told hs

theorem Reached.told (hr : Reached h c) (hs : c.tracker.isSpent = true) : .call .close ∈ deeds h := by
  induction hr with
  | fresh => simp [Traffic.fresh, Tracker.new, Tracker.isSpent] at hs
  | move hr hm ih =>
      rw [Happening.deeds_append, List.mem_append]
      exact (hm.told hs).imp_left ih

theorem Reached.draining (hr : Reached h c) (room : 0 < c.ceiling) (full : c.ceiling ≤ c.dispatched) :
    c.tracker.draining = true := by
  induction hr with
  | fresh =>
      simp only [Traffic.fresh] at room full
      omega
  | move hr hm ih =>
      have hc := hr.coherent
      have hk := hm.sameSetup
      rcases hm.advance hc.inOrder (fun a ha => (hc.abandoned a ha).2) with
        ha | ⟨clock, options, request, sink, deadline, -, -, rfl⟩
      · rw [ha.tracker.draining]
        rw [ha.dispatched] at full
        exact ih (hk.ceiling ▸ room) (hk.ceiling ▸ full)
      · exact enroll_draining _ options request sink deadline full

theorem Path.clears (hr : Reached h c) (hp : Path (Write clock gone) c x d) :
    Clears c.tracker.debts (deeds x) d.tracker.debts := by
  induction hp with
  | refl => exact .refl
  | @snoc d e _ y hq hw ih =>
      have hcoherent := (hr.path (hq.mono (.write clock gone))).coherent
      have hsettles : Accounts (incurred y ++ d.tracker.debts) (deeds y) e.tracker.debts :=
        hw.settles hcoherent.inOrder
      have hfree : incurred y = [] := by
        cases hw with
        | stall => rfl
        | _ => exact incurred_ofActions _
      rw [hfree, List.nil_append] at hsettles
      rw [Happening.deeds_append]
      exact ih.trans (hw.drains.clears hsettles)

end Traffic

theorem TimerLoop.run_clears (timer : Timer) (clock : Clock) (v : TimerLoop) :
    let kept := v.run timer clock
    Clears v.tracker.debts kept.actions kept.value.tracker.debts := by
  induction v using TimerLoop.run.induct timer clock with
  | case1 v later hcheck =>
      rw [run_quiet hcheck]
      exact .refl
  | case2 v text hcheck =>
      rw [run_broken hcheck]
      exact .refl
  | case3 v deadline hcheck expired ih =>
      have hexpired := (v.tracker.expire_drains (max (clock.reading v.readings) deadline)).clears
        (v.tracker.expire_settles _)
      rw [run_due hcheck]
      simpa [expired] using hexpired.trans ih

namespace Session

open Traffic (Path Reached Write)

variable {s : Session} {c : Traffic} {h : List Happening} {inputs : List Input} {i : Input}

/-- Events upon which a session hangs up at once, whatever it still awaits. -/
inductive HangsUp (s : Session) : Input → Prop
  | failed (fault : Fault) : HangsUp s (.negotiationFailed fault)
  | message (m : Message) (odd : m.objection.isSome = true) : HangsUp s (.message m)
  | broken (e : IoError) (isOpen : s.channel.isOpen = true) : HangsUp s (.transportError e)
  | violation (stream : Option StreamId) (part : Part)
      (wrong : (s.onResponse stream part).value.2.isSome = true) : HangsUp s (.response stream part)

theorem onTransportClosed_unclosed (s : Session) (promise : Promise) :
    .call .close ∉ (s.onTransportClosed promise).actions := by
  have hfarewell : .call .close ≠ s.farewell promise := by
    unfold farewell
    split <;> simp
  unfold onTransportClosed
  split
  · simp
  · dsimp only
    rw [List.mem_append, List.mem_singleton, not_or]
    refine ⟨?_, hfarewell⟩
    split
    · exact Tracker.fails_unclosed _ _
    · simp

theorem abandon_unclosed (s : Session) (reason : String) :
    .call .close ∉ (s.abandon reason).actions := by
  unfold abandon
  dsimp only
  split
  · exact Tracker.fails_unclosed _ _
  · simp

theorem dispatch_unclosed (ht : s.traffic? = some c) (clock : Clock) (options : Options)
    (request : Request) (sink : Nat) :
    .call .close ∉ (s.dispatch clock options request sink).actions := by
  cases hroom : c.hasRoom with
  | false =>
      rw [dispatch_of_full ht hroom]
      simp [refuse]
  | true =>
      rw [(dispatch_of_room ht hroom clock options request sink).2]
      refine (c.enroll_drains options request sink _).unclosed ?_
      rw [Traffic.enroll_pending]
      exact Tracker.insertSorted_ne_nil _ _

theorem response_clears (ht : s.traffic? = some c) (hr : Reached h c) {stream : Option StreamId}
    {part : Part} (right : (s.onResponse stream part).value.2 = none) :
    Clears s.debts (s.respond (.response stream part)).actions
      (s.respond (.response stream part)).value.debts := by
  obtain ⟨hvalue, hactions⟩ := response_established ht stream part
  have hfault : (c.tracker.receive stream part).value.fault = none := by
    simpa [onResponse, (traffic?_eq_some ht).1] using right
  have hclears := (c.tracker.receive_drains stream part).clears
    (hr.coherent.inOrder.receive_settles stream part)
  rw [hactions, debts_of_traffic hvalue, debts_of_traffic ht]
  simpa [Traffic.receive, hfault] using hclears

theorem keepTime_clears (ht : s.traffic? = some c) (unarmed : s.negotiation = none) (clock : Clock) :
    Clears s.debts (s.respond (.keepTime clock)).actions (s.respond (.keepTime clock)).value.debts := by
  obtain ⟨hphase, -, -⟩ := traffic?_eq_some ht
  obtain ⟨r, hr, hdebts⟩ : ∃ r : Session, s.respond (.keepTime clock)
      = ⟨r, ((s.timerLoop c.tracker).run s.timer clock).actions⟩
        ∧ r.debts = ((s.timerLoop c.tracker).run s.timer clock).value.tracker.debts := by
    simp only [respond, keepTime_of_established hphase, keepNegotiation_of_none unarmed]
    exact ⟨_, congrArg (Traced.mk _) (by simp), rfl⟩
  rw [hr, hdebts, debts_of_traffic ht]
  exact TimerLoop.run_clears s.timer clock (s.timerLoop c.tracker)

theorem write_clears (ht : s.traffic? = some c) (hr : Reached h c) (clock : Clock)
    (gone : Nat → Bool) :
    Clears s.debts (s.respond (.write clock gone)).actions (s.respond (.write clock gone)).value.debts := by
  obtain ⟨hvalue, hactions⟩ := write_established ht clock gone
  rw [hactions, debts_of_traffic hvalue, debts_of_traffic ht]
  simpa using (Traffic.written_path clock gone c).clears hr

theorem Stands.reached (hs : s.Stands h) (ht : s.traffic? = some c) : Reached h c := by
  cases hs with
  | established d traffic reached =>
      obtain rfl := Option.some.inj (traffic.symm.trans ht)
      exact reached
  | negotiating phase | failed phase | closed _ _ _ phase => simp [traffic?, phase] at ht

theorem Stands.clears (hs : s.Stands h) (armed : s.negotiation.isSome = true → s.phase = .negotiating)
    (hi : ¬s.HangsUp i) :
    Clears (i.debts ++ s.debts) (s.respond i).actions (s.respond i).value.debts := by
  have hsettles := hs.settles i
  cases ht : s.traffic? with
  | none =>
      rw [debts_of_none ht, List.append_nil] at hsettles ⊢
      cases i with
      | dispatch clock options request sink =>
          refine .ofUnclosed hsettles ?_
          simp [Session.respond, dispatch_of_none ht, refuse]
      | _ => exact .ofNothing hsettles
  | some c =>
      obtain ⟨hphase, -, -⟩ := traffic?_eq_some ht
      have hreached := hs.reached ht
      cases i with
      | response stream part =>
          refine response_clears ht hreached ?_
          by_contra hwrong
          exact hi (.violation stream part (Option.isSome_iff_ne_none.2 hwrong))
      | keepTime clock =>
          refine keepTime_clears ht ?_ clock
          by_contra hsome
          simp [armed (Option.isSome_iff_ne_none.2 hsome)] at hphase
      | write clock gone => exact write_clears ht hreached clock gone
      | negotiationFailed fault => exact absurd (.failed fault) hi
      | negotiated promise reachable p =>
          refine .ofUnclosed hsettles ?_
          simp [Session.respond, onNegotiated_ignored (s := s) (by simp [hphase])]
      | closed promise => exact .ofUnclosed hsettles (s.onTransportClosed_unclosed promise)
      | dropped reason => exact .ofUnclosed hsettles (s.abandon_unclosed reason)
      | dispatch clock options request sink =>
          refine .ofUnclosed hsettles ?_
          simpa [Session.respond] using dispatch_unclosed ht clock options request sink
      | message m =>
          refine .ofUnclosed hsettles ?_
          cases hm : m.objection with
          | none => simp [Session.respond, onMessage, hm]
          | some text => exact absurd (.message m (by simp [hm])) hi
      | transportError e =>
          refine .ofUnclosed hsettles ?_
          cases ho : s.channel.isOpen with
          | false => simp [Session.respond, onTransportError, ho]
          | true => exact absurd (.broken e ho) hi
      | _ => exact .ofUnclosed hsettles (by simp [Session.respond])

theorem IsNew.paid_of_close (hs : s.IsNew) (hi : ¬(s.after inputs).HangsUp i) {xs ys : List Action}
    (he : ((s.after inputs).respond i).actions = xs ++ .call .close :: ys) :
    Accounts ((inputs ++ [i]).flatMap Input.debts) (deeds (s.history inputs) ++ xs) [] := by
  have harmed : (s.after inputs).negotiation.isSome = true → (s.after inputs).phase = .negotiating :=
    fun h => (hs.armed h).1
  have hnow := ((hs.stands inputs).clears harmed hi).paid xs ys he
  have hbefore := (hs.stands []).settles_after inputs
  rw [after_nil, debts_of_none (traffic?_eq_none.2 (.inl hs.start.1)), List.append_nil] at hbefore
  refine Accounts.perm_owed ((hbefore.beside i.debts).trans hnow) ?_
  rw [List.flatMap_append, List.flatMap_singleton]
  exact List.perm_append_comm

theorem turning_of_closed (hn : s.phase ≠ .closed) (hc : (s.respond i).value.phase = .closed) :
    i.isTurning = true := by
  by_contra hi
  rw [Bool.not_eq_true] at hi
  cases ht : s.traffic? with
  | none => exact hn ((respond_resting ht hi).1.symm.trans hc)
  | some c =>
      rcases respond_established ht i with ⟨d, hd, -⟩ | hends
      · simp [traffic?, hc] at hd
      · exact absurd (hi.symm.trans hends.turning) (by decide)

theorem close_of_closed (hn : s.phase ≠ .closed) (hc : (s.respond i).value.phase = .closed)
    (hopen : (s.respond i).value.transportClosed = false) (kept : ∀ reason, i ≠ .dropped reason) :
    .call .close ∈ (s.respond i).actions := by
  have hturning := turning_of_closed hn hc
  cases i with
  | negotiationFailed fault => simp [respond, onNegotiationFailed]
  | dropped reason => exact absurd rfl (kept reason)
  | closed promise =>
      have hbefore := open_of_respond hopen
      simp [respond, onTransportClosed_value hbefore] at hopen
  | negotiated promise reachable p =>
      by_cases h : s.phase = .negotiating
      · obtain ⟨fault, he⟩ | ⟨encoder, -, hv, -⟩ := onNegotiated_cases h promise reachable p
        · rw [respond, he]
          simp [onNegotiationFailed]
        · simp [respond, hv] at hc
      · rw [respond, onNegotiated_ignored h] at hc
        exact absurd hc hn
  | _ => simp [Input.isTurning] at hturning

theorem IsNew.told_of_closed (hs : s.IsNew) (hclosed : (s.after inputs).phase = .closed)
    (hopen : (s.after inputs).transportClosed = false) (kept : ∀ reason, .dropped reason ∉ inputs) :
    .call .close ∈ deeds (s.history inputs) := by
  induction inputs using List.reverseRecOn with
  | nil => simp [hs.start.1] at hclosed
  | append_singleton inputs i ih =>
      rw [after_concat] at hclosed hopen
      have hopen : ((s.after inputs).respond i).value.transportClosed = false := hopen
      rw [history_append, Happening.deeds_append, List.mem_append]
      by_cases hover : (s.after inputs).phase = .closed
      · exact .inl (ih hover (open_of_respond hopen) fun reason hd =>
          kept reason (List.mem_append_left _ hd))
      · refine .inr ?_
        have hclose := close_of_closed hover hclosed hopen fun reason he => kept reason (by simp [he])
        simpa using hclose

theorem IsNew.told (hs : s.IsNew) (room : 0 < s.ceiling) (hnone : (s.after inputs).takesNone = true)
    (hquiet : (s.after inputs).hasUnfinished = false)
    (hopen : (s.after inputs).transportClosed = false) (kept : ∀ reason, .dropped reason ∉ inputs) :
    .call .close ∈ deeds (s.history inputs) := by
  cases ht : (s.after inputs).traffic? with
  | none =>
      rcases traffic?_eq_none.1 ht with hn | hc
      · simp [takesNone, hn] at hnone
      · exact hs.told_of_closed hc hopen kept
  | some c =>
      obtain ⟨hphase, -, hceiling⟩ := traffic?_eq_some ht
      obtain ⟨hreached, -⟩ := hs.established inputs ht
      refine hreached.told ?_
      rw [takesNone_of_traffic ht, Bool.not_eq_true', Traffic.hasRoom, Bool.and_eq_false_iff,
        decide_eq_false_iff_not, Nat.not_lt, Bool.not_eq_false'] at hnone
      rcases hnone with hfull | hd
      · have hpending : c.tracker.pending = [] := by
          simpa [hasUnfinished, tracker?, hphase, Tracker.hasOutstanding] using hquiet
        rw [after_ceiling] at hceiling
        simp [Tracker.isSpent, hreached.draining (hceiling ▸ room) hfull, hpending]
      · exact Tracker.isSpent_of_desynced hd

end Session

end HttpSession
