import HttpSession.Proofs.Session.Accounts

/-! What a session tells whoever waits for it, and when. -/

namespace HttpSession

open Happening (ofActions deeds)

def Action.isVerdict : Action → Bool
  | .offer | .refuse _ | .call (.connect _ _ _) => true
  | _ => false

def verdicts (actions : List Action) : List Action := actions.filter Action.isVerdict

@[simp] theorem verdicts_nil : verdicts [] = [] := rfl

@[simp] theorem verdicts_cons (a : Action) (actions : List Action) :
    verdicts (a :: actions) = (if a.isVerdict then [a] else []) ++ verdicts actions := by
  cases h : a.isVerdict <;> simp [verdicts, h]

@[simp] theorem verdicts_append (xs ys : List Action) :
    verdicts (xs ++ ys) = verdicts xs ++ verdicts ys := List.filter_append ..

namespace Tracker

variable {t : Tracker} {p : Pending}

@[simp] theorem closeIfDrained_verdicts (t : Tracker) : verdicts t.closeIfDrained = [] := by
  unfold closeIfDrained
  split <;> rfl

@[simp] theorem fails_verdicts (pending : List Pending) (fault : Fault) :
    verdicts (pending.map (·.fail fault)) = [] := by
  simp [verdicts, Pending.fail, Action.isVerdict]

@[simp] theorem settle_verdicts (t : Tracker) (seq : Nat) (reply : Reply) :
    verdicts (t.settle seq reply).actions = [] := by
  simp only [settle, verdicts_append, closeIfDrained_verdicts, List.append_nil]
  simp [verdicts, Action.isVerdict]

@[simp] theorem desync_verdicts (t : Tracker) : verdicts t.desync.actions = [] := by
  unfold desync
  split
  · rfl
  · simp [Action.isVerdict]

@[simp] theorem afterAbandon_verdicts (t : Tracker) (seqs : List Nat) :
    verdicts (t.afterAbandon seqs).actions = [] := by
  unfold afterAbandon
  split <;> simp

@[simp] theorem abandon_verdicts (t : Tracker) (seq : Nat) (fault : Fault) :
    verdicts (t.abandon seq fault).actions = [] := by
  unfold abandon
  split
  · rfl
  · simp [Pending.fail, Action.isVerdict]

@[simp] theorem fail_verdicts (t : Tracker) (seq : Nat) (fault : Fault) :
    verdicts (t.fail seq fault).actions = [] := by
  unfold fail
  split <;> simp

@[simp] theorem forget_verdicts (t : Tracker) (seq : Nat) : verdicts (t.forget seq).actions = [] :=
  settle_verdicts t seq _

@[simp] theorem failAll_verdicts (t : Tracker) (fault : Fault) :
    verdicts (t.failAll fault).actions = [] :=
  fails_verdicts _ _

@[simp] theorem closeAfterDrain_verdicts (t : Tracker) : verdicts t.closeAfterDrain.actions = [] :=
  closeIfDrained_verdicts _

@[simp] theorem expire_verdicts (t : Tracker) (now : Instant) :
    verdicts (t.expire now).actions = [] := by
  unfold expire
  dsimp only
  split
  · rfl
  · simp

theorem receive_verdicts (t : Tracker) (stream : Option StreamId) (part : Part) :
    verdicts (t.receive stream part).actions = [] := by
  obtain ⟨fault, he⟩ | ⟨p, -, -, -, he⟩ := t.receive_cases stream part
  · rw [he]
    rfl
  · rw [he]
    have hreception := t.receivePart_reception p part
    generalize t.receivePart p part = r at hreception ⊢
    cases hreception with
    | ignored | wrong | added => rfl
    | tooLarge => exact abandon_verdicts _ _ _
    | complete | reset => exact settle_verdicts _ _ _

end Tracker

theorem TimerLoop.run_verdicts (timer : Timer) (clock : Clock) (v : TimerLoop) :
    verdicts (v.run timer clock).actions = [] := by
  induction v using TimerLoop.run.induct timer clock with
  | case1 v later hcheck => simp [run_quiet hcheck]
  | case2 v text hcheck => simp [run_broken hcheck]
  | case3 v deadline hcheck expired ih => simpa [run_due hcheck, expired] using ih

theorem Http1.writeAll_verdicts (wire : Wire) (octets : List Octets) :
    verdicts ((Http1.writeAll wire octets).2.1.map .call) = [] := by
  induction octets generalizing wire with
  | nil => rfl
  | cons o rest ih =>
      unfold Http1.writeAll
      split
      · rfl
      · simpa [Action.isVerdict] using ih _

theorem Http2.send_verdicts (sink : FrameSink) {call : Bool → Call}
    (h : ∀ ok, Action.isVerdict (.call (call ok)) = false) :
    verdicts ((Http2.send sink call).2.1.map .call) = [] := by
  unfold Http2.send
  split <;> simp [h]

theorem Encoder.put_verdicts (encoder : Encoder) (seq : Nat) (piece : Piece) :
    verdicts ((encoder.put seq piece).actions seq piece) = [] := by
  rw [Emission.actions, verdicts_append, verdicts_cons, verdicts_nil]
  simp only [Action.isVerdict, Bool.false_eq_true, if_false, List.append_nil]
  cases encoder with
  | http1 framing wire =>
      cases piece with
      | reset => rfl
      | _ => exact Http1.writeAll_verdicts _ _
  | http2 sink =>
      cases piece with
      | reset => rfl
      | _ => exact Http2.send_verdicts _ fun _ => rfl

theorem Writer.abandon_verdicts (w : Writer) (seq : Nat) (reset : Bool) :
    verdicts (w.abandon seq reset).2 = [] := by
  unfold abandon
  split
  · rfl
  · dsimp only
    split
    · exact Encoder.put_verdicts _ _ _
    · rfl

namespace Traffic

variable {c d : Traffic} {x : List Happening} {clock : Clock} {gone : Nat → Bool}

theorem giveUp_verdicts (c : Traffic) (seq : Nat) (fault : Fault) :
    verdicts (c.giveUp seq fault).actions = [] := by
  simp [giveUp, track, Encoder.put_verdicts]

theorem Write.verdicts (hw : Write clock gone c x d) : verdicts (deeds x) = [] := by
  cases hw with
  | stop a rest given => simp [Writer.abandon_verdicts]
  | skip u rest stopped next free canceled => simp [track]
  | launch u rest sent stopped next free wanted put ok => simp [← put, Encoder.put_verdicts]
  | miss u rest sent fault stopped next free wanted put failed =>
      simp [giveUp_verdicts, ← put, Encoder.put_verdicts]
  | proceed f before behind octets rest sent stopped flight frame put ok =>
      simp [← put, Encoder.put_verdicts]
  | stall => rfl
  | complete f before behind piece sent stopped flight final put ok =>
      simp [← put, Encoder.put_verdicts]
  | lose f before behind piece sent fault stopped flight body put failed =>
      simp [giveUp_verdicts, ← put, Encoder.put_verdicts]
  | breakOff f before behind fault stopped flight => simp [giveUp_verdicts]

theorem Path.verdicts (hp : Path (Write clock gone) c x d) : verdicts (deeds x) = [] := by
  induction hp with
  | refl => rfl
  | snoc _ hm ih => simp [ih, hm.verdicts]

end Traffic

namespace Session

variable {s : Session} {i : Input}

def verdict (s : Session) : Input → List Action
  | .negotiated _ reachable protocol =>
      if s.phase = .negotiating then
        match s.speak protocol with
        | .ok _ => if reachable then [.offer] else []
        | .error fault => [.refuse fault]
      else []
  | .negotiationFailed fault => [.refuse fault]
  | .closed promise => if s.transportClosed then [] else [s.farewell promise]
  | .keepTime clock =>
      if s.negotiation.any (·.isOver clock) then [.refuse Fault.negotiationTimeout] else []
  | _ => []

theorem enterClosed_verdicts (s : Session) : verdicts s.enterClosed.actions = [] := by
  unfold enterClosed
  cases s.phase with
  | established w t => exact Tracker.failAll_verdicts _ _
  | _ => rfl

theorem onNegotiationFailed_verdicts (s : Session) (fault : Fault) :
    verdicts (s.onNegotiationFailed fault).actions = [.refuse fault] := by
  simp [onNegotiationFailed, enterClosed_verdicts, Action.isVerdict]

theorem onNegotiated_verdicts (s : Session) (promise : Promise) (reachable : Bool) (p : Protocol) :
    verdicts (s.onNegotiated promise reachable p).actions
      = s.verdict (.negotiated promise reachable p) := by
  by_cases h : s.phase = .negotiating
  · have hspeak : s.cancelNegotiationTimeout.speak p = s.speak p := rfl
    simp only [onNegotiated, verdict, h, if_true, hspeak]
    cases s.speak p with
    | error fault => exact onNegotiationFailed_verdicts _ fault
    | ok spoken =>
        rw [verdicts_append]
        cases reachable <;> cases promise.isWanted <;> rfl
  · simp [onNegotiated_ignored h, verdict, h]

theorem onTransportClosed_verdicts (s : Session) (promise : Promise) :
    verdicts (s.onTransportClosed promise).actions = s.verdict (.closed promise) := by
  cases h : s.transportClosed with
  | true => simp [onTransportClosed_again h, verdict, h]
  | false =>
      have hfarewell : (s.farewell promise).isVerdict = true := by
        unfold farewell
        split <;> rfl
      simp only [onTransportClosed, h, verdict, Bool.false_eq_true, if_false, verdicts_append,
        verdicts_cons, hfarewell, if_true, verdicts_nil]
      cases s.tracker? <;> simp

theorem abandon_verdicts (s : Session) (reason : String) : verdicts (s.abandon reason).actions = [] := by
  unfold abandon
  cases s.tracker? <;> simp

theorem dispatch_verdicts (s : Session) (clock : Clock) (options : Options) (request : Request)
    (sink : Nat) : verdicts (s.dispatch clock options request sink).actions = [] := by
  cases ht : s.traffic? with
  | none =>
      rw [dispatch_of_none ht]
      rfl
  | some c =>
      cases hroom : c.hasRoom with
      | false =>
          rw [dispatch_of_full ht hroom]
          rfl
      | true =>
          rw [(dispatch_of_room ht hroom clock options request sink).2]
          unfold Traffic.enroll
          dsimp only
          split <;> simp [Action.isVerdict]

theorem keepTime_verdicts (s : Session) (clock : Clock) :
    verdicts (s.keepTime clock).actions = s.verdict (.keepTime clock) := by
  have hkeep : verdicts (s.keepNegotiation clock).actions = s.verdict (.keepTime clock) := by
    simp only [keepNegotiation, verdict]
    split <;> rfl
  cases h : s.traffic? with
  | none => rw [keepTime_of_none h, hkeep]
  | some c =>
      rw [keepTime_of_established (traffic?_eq_some h).1]
      simp [hkeep, TimerLoop.run_verdicts]

theorem write_verdicts (s : Session) (clock : Clock) (gone : Nat → Bool) :
    verdicts (s.respond (.write clock gone)).actions = [] := by
  cases h : s.traffic? with
  | none => rcases traffic?_eq_none.1 h with h | h <;> simp [respond, Session.write, h]
  | some c =>
      rw [(write_established h clock gone).2]
      simpa using (Traffic.written_path clock gone c).verdicts

theorem respond_verdicts (s : Session) (i : Input) : verdicts (s.respond i).actions = s.verdict i := by
  cases i with
  | negotiated promise reachable p => exact onNegotiated_verdicts s promise reachable p
  | negotiationFailed fault => exact onNegotiationFailed_verdicts s fault
  | closed promise => exact onTransportClosed_verdicts s promise
  | dropped reason => exact abandon_verdicts s reason
  | dispatch clock options request sink =>
      simpa [respond, verdict] using dispatch_verdicts s clock options request sink
  | keepTime clock => simpa [respond] using keepTime_verdicts s clock
  | write clock gone => exact write_verdicts s clock gone
  | response stream part =>
      unfold respond onResponse
      cases s.phase with
      | established w t =>
          simp only [Traced.actions_bind, Traced.actions_pure, verdicts_append,
            Tracker.receive_verdicts]
          split <;> rfl
      | _ => rfl
  | message m =>
      simp only [respond, onMessage]
      cases m.objection <;> rfl
  | transportError e =>
      simp only [respond, onTransportError]
      cases s.channel.isOpen <;> rfl
  | _ => rfl

theorem verdict_length_le (s : Session) (i : Input) : (s.verdict i).length ≤ 1 := by
  cases i with
  | negotiated promise reachable p =>
      simp only [verdict]
      split
      · cases s.speak p <;> cases reachable <;> simp
      · simp
  | closed promise =>
      simp only [verdict]
      split <;> simp
  | keepTime clock =>
      simp only [verdict]
      split <;> simp
  | _ => simp [verdict]

theorem offer_of_verdict (h : .offer ∈ s.verdict i) :
    ∃ promise p spoken, i = .negotiated promise true p ∧ s.phase = .negotiating
      ∧ s.speak p = .ok spoken := by
  cases i with
  | negotiated promise reachable p =>
      simp only [verdict] at h
      split at h
      · cases hspeak : s.speak p with
        | error fault => simp [hspeak] at h
        | ok spoken =>
            cases reachable with
            | false => simp [hspeak] at h
            | true => exact ⟨promise, p, spoken, rfl, ‹_›, hspeak⟩
      · simp at h
  | closed promise =>
      simp only [verdict, farewell] at h
      split at h
      · simp at h
      · split at h <;> simp at h
  | keepTime clock =>
      simp only [verdict] at h
      split at h <;> simp at h
  | _ => simp [verdict] at h

theorem connect_of_verdict {address : Address} {protocol : Protocol} {settled : Bool}
    (h : .call (.connect address protocol settled) ∈ s.verdict i) :
    ∃ promise, i = .closed promise ∧ s.transportClosed = false ∧ s.status.fallback = true
      ∧ address = s.channel.address ∧ protocol = .h1c ∧ settled = promise.settled := by
  cases i with
  | closed promise =>
      simp only [verdict, farewell] at h
      split at h
      · simp at h
      · rename_i hopen
        split at h
        · simp only [List.mem_singleton, Action.call.injEq, Call.connect.injEq] at h
          exact ⟨promise, rfl, by simpa using hopen, ‹_›, h⟩
        · simp at h
  | negotiated promise reachable p =>
      simp only [verdict] at h
      split at h
      · cases hspeak : s.speak p <;> simp [hspeak] at h
      · simp at h
  | keepTime clock =>
      simp only [verdict] at h
      split at h <;> simp at h
  | _ => simp [verdict] at h

theorem mem_verdict {a : Action} (ha : a ∈ (s.respond i).actions) (hv : a.isVerdict = true) :
    a ∈ s.verdict i := by
  rw [← respond_verdicts]
  exact List.mem_filter.2 ⟨ha, hv⟩

end Session

end HttpSession
