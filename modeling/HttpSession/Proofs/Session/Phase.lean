import HttpSession.Proofs.Session.Writing

namespace HttpSession

open Happening (ofActions)

def Quiet (h : List Happening) : Prop :=
  ∀ a, .action a ∈ h → a.isQuiet = true

namespace Quiet

variable {h x : List Happening} {actions : List Action}

theorem nil : Quiet [] := fun _ ha => nomatch ha

theorem append (hh : Quiet h) (hx : Quiet x) : Quiet (h ++ x) := fun a ha =>
  (List.mem_append.1 ha).elim (hh a) (hx a)

theorem ofInput (i : Input) (hq : ∀ a ∈ actions, a.isQuiet = true) :
    Quiet (.input i :: ofActions actions) := fun a ha => hq a (by simpa using ha)

end Quiet

theorem Action.unpaid_of_isIdle {a : Action} (h : a.isIdle = true) : a.pays? = none := by
  cases a with
  | answer | accept => simp [isIdle] at h
  | _ => rfl

theorem Accounts.of_isIdle {owed : List Debt} {actions : List Action}
    (h : ∀ a ∈ actions, a.isIdle = true) : Accounts owed actions owed :=
  .of_unpaid (List.filterMap_eq_nil_iff.2 fun a ha => Action.unpaid_of_isIdle (h a ha))

def Encoder.binding : Encoder → Binding
  | .http1 _ _ => .ordered
  | .http2 _ => .byStream

def Traffic.fresh (ceiling : Nat) (encoder : Encoder) (timer : Timer) : Traffic :=
  ⟨0, ceiling, Writer.new encoder timer (encoder.binding == .byStream), Tracker.new encoder.binding⟩

def Input.isTurning : Input → Bool
  | .negotiated _ _ _ | .negotiationFailed _ | .closed _ | .dropped _ => true
  | _ => false

namespace Session

variable {s : Session}

def traffic? (s : Session) : Option Traffic :=
  match s.phase with
  | .established w t => some ⟨s.dispatched, s.ceiling, w, t⟩
  | _ => none

theorem traffic?_eq_some {c : Traffic} (h : s.traffic? = some c) :
    s.phase = .established c.writer c.tracker ∧ s.dispatched = c.dispatched
      ∧ s.ceiling = c.ceiling := by
  unfold traffic? at h
  split at h
  · obtain rfl := Option.some.inj h
    exact ⟨‹_›, rfl, rfl⟩
  · simp at h

theorem traffic?_of_phase {w : Writer} {t : Tracker} (h : s.phase = .established w t) :
    s.traffic? = some ⟨s.dispatched, s.ceiling, w, t⟩ := by
  simp [traffic?, h]

theorem traffic?_eq_none : s.traffic? = none ↔ s.phase = .negotiating ∨ s.phase = .closed := by
  cases h : s.phase <;> simp [traffic?, h]

def debts (s : Session) : List Debt := (s.tracker?.map Tracker.debts).getD []

theorem debts_of_traffic {c : Traffic} (h : s.traffic? = some c) : s.debts = c.tracker.debts := by
  simp [debts, tracker?, (traffic?_eq_some h).1]

theorem debts_of_none (h : s.traffic? = none) : s.debts = [] := by
  rcases traffic?_eq_none.1 h with h | h <;> simp [debts, tracker?, h]

theorem debts_of_closed (h : s.phase = .closed) : s.debts = [] :=
  debts_of_none (traffic?_eq_none.2 (.inr h))

@[simp] theorem enterClosed_value (s : Session) :
    s.enterClosed.value = { s with phase := .closed, alarm := none } := by
  unfold enterClosed
  cases s.phase <;> rfl

theorem enterClosed_quiet (s : Session) : ∀ a ∈ s.enterClosed.actions, a.isQuiet = true := by
  unfold enterClosed
  cases s.phase with
  | established w t => exact t.failAll_quiet _
  | _ => simp

theorem enterClosed_settles (s : Session) : Accounts s.debts s.enterClosed.actions [] := by
  unfold enterClosed debts tracker?
  cases s.phase with
  | established w t => exact t.failAll_settles _
  | _ => exact .refl

@[simp] theorem onNegotiationFailed_value (s : Session) (fault : Fault) :
    (s.onNegotiationFailed fault).value
      = { s with negotiation := none, phase := .closed, alarm := none } :=
  enterClosed_value s.cancelNegotiationTimeout

theorem onNegotiationFailed_quiet (s : Session) (fault : Fault) :
    ∀ a ∈ (s.onNegotiationFailed fault).actions, a.isQuiet = true := by
  intro a ha
  simp only [onNegotiationFailed, Traced.actions_bind, Traced.actions_perform, List.mem_append,
    List.mem_cons, List.not_mem_nil, or_false] at ha
  obtain (rfl | rfl) | ha := ha
  · rfl
  · rfl
  · exact enterClosed_quiet _ a ha

theorem onNegotiationFailed_settles (s : Session) (fault : Fault) :
    Accounts s.debts (s.onNegotiationFailed fault).actions [] := by
  have hnews : Accounts s.debts [.refuse fault, .call .close] s.debts := .of_unpaid rfl
  exact hnews.trans s.cancelNegotiationTimeout.enterClosed_settles

@[simp] theorem abandon_value (s : Session) (reason : String) :
    (s.abandon reason).value = { s with negotiation := none, alarm := none, phase := .closed } := by
  unfold abandon
  cases s.tracker? <;> rfl

theorem abandon_quiet (s : Session) (reason : String) :
    ∀ a ∈ (s.abandon reason).actions, a.isQuiet = true := by
  unfold abandon
  cases s.tracker? with
  | none => simp
  | some t => exact t.failAll_quiet _

theorem abandon_settles (s : Session) (reason : String) :
    Accounts s.debts (s.abandon reason).actions [] := by
  unfold abandon debts
  cases s.tracker? with
  | none => exact .refl
  | some t => exact t.failAll_settles _

theorem farewell_isIdle (s : Session) (promise : Promise) : (s.farewell promise).isIdle = true := by
  unfold farewell
  split <;> rfl

theorem onTransportClosed_again (h : s.transportClosed = true) (promise : Promise) :
    s.onTransportClosed promise = ⟨s, []⟩ := if_pos h

theorem onTransportClosed_value (h : s.transportClosed = false) (promise : Promise) :
    (s.onTransportClosed promise).value
      = { s with
          status := { s.status with active := false, unfinished := false }
          transportClosed := true, negotiation := none, alarm := none, phase := .closed } := by
  simp [onTransportClosed, h, publish, deactivate, hasUnfinished, tracker?]

theorem onTransportClosed_quiet (s : Session) (promise : Promise) :
    ∀ a ∈ (s.onTransportClosed promise).actions, a.isQuiet = true := by
  intro a ha
  cases h : s.transportClosed with
  | true => simp [onTransportClosed_again h] at ha
  | false =>
      rw [onTransportClosed, if_neg (by simp [h])] at ha
      rcases List.mem_append.1 ha with ha | ha
      · cases ht : s.tracker? with
        | none => simp [ht] at ha
        | some t => exact t.failAll_quiet _ a (by simpa [ht] using ha)
      · obtain rfl := List.mem_singleton.1 ha
        exact Action.isQuiet_of_isIdle (farewell_isIdle s promise)

theorem onTransportClosed_settles (h : s.transportClosed = false) (promise : Promise) :
    Accounts s.debts (s.onTransportClosed promise).actions [] := by
  simp only [onTransportClosed, h, Bool.false_eq_true, if_false]
  refine Accounts.append_unpaid ?_ (by simp [Action.unpaid_of_isIdle (farewell_isIdle s promise)])
  unfold debts
  cases s.tracker? with
  | none => exact .refl
  | some t => exact t.failAll_settles _

theorem speak_eq_ok {p : Protocol} {encoder : Encoder} {binding : Binding}
    (h : s.speak p = .ok (encoder, binding)) :
    binding = encoder.binding ∧ p.isMultiplex = (encoder.binding == .byStream) := by
  unfold speak at h
  split at h
  · rename_i hp
    split at h
    · obtain ⟨rfl, rfl⟩ : _ ∧ _ := by simpa using h
      exact ⟨rfl, hp⟩
    · simp at h
  · rename_i hp
    split at h
    · obtain ⟨rfl, rfl⟩ : _ ∧ _ := by simpa using h
      exact ⟨rfl, by rw [Bool.not_eq_true] at hp; exact hp⟩
    · simp at h

theorem onNegotiated_ignored (h : s.phase ≠ .negotiating) (promise : Promise) (reachable : Bool)
    (p : Protocol) : s.onNegotiated promise reachable p = ⟨s, []⟩ := by
  unfold onNegotiated
  split
  · exact absurd ‹_› h
  · rfl

theorem onNegotiated_cases (h : s.phase = .negotiating) (promise : Promise) (reachable : Bool)
    (p : Protocol) :
    (∃ fault, s.onNegotiated promise reachable p
        = s.cancelNegotiationTimeout.onNegotiationFailed fault)
      ∨ ∃ encoder, p.isMultiplex = (encoder.binding == .byStream)
        ∧ (s.onNegotiated promise reachable p).value
          = { s with
              status := { s.status with protocol := some p }, negotiation := none
              phase := .established (Traffic.fresh s.ceiling encoder s.timer).writer
                (Traffic.fresh s.ceiling encoder s.timer).tracker }
        ∧ ∀ a ∈ (s.onNegotiated promise reachable p).actions, a.isIdle = true := by
  simp only [onNegotiated, h]
  split
  · exact .inl ⟨_, rfl⟩
  · rename_i encoder binding hspeak
    obtain ⟨rfl, hp⟩ := speak_eq_ok hspeak
    refine .inr ⟨encoder, hp, rfl, fun a ha => ?_⟩
    rcases List.mem_append.1 ha with ha | ha <;> split at ha <;> simp_all [Action.isIdle]

theorem onNegotiated_quiet (s : Session) (promise : Promise) (reachable : Bool) (p : Protocol) :
    ∀ a ∈ (s.onNegotiated promise reachable p).actions, a.isQuiet = true := by
  by_cases h : s.phase = .negotiating
  · obtain ⟨fault, he⟩ | ⟨encoder, -, -, hidle⟩ := onNegotiated_cases h promise reachable p
    · exact he ▸ onNegotiationFailed_quiet _ fault
    · exact fun a ha => Action.isQuiet_of_isIdle (hidle a ha)
  · simp [onNegotiated_ignored h]

theorem onNegotiated_settles (hn : s.traffic? = none) (promise : Promise) (reachable : Bool)
    (p : Protocol) : Accounts [] (s.onNegotiated promise reachable p).actions [] := by
  rcases traffic?_eq_none.1 hn with h | h
  · obtain ⟨fault, he⟩ | ⟨encoder, -, -, hidle⟩ := onNegotiated_cases h promise reachable p
    · have := s.cancelNegotiationTimeout.onNegotiationFailed_settles fault
      rwa [debts_of_none (s := s.cancelNegotiationTimeout) hn, ← he] at this
    · exact .of_isIdle hidle
  · rw [onNegotiated_ignored (by simp [h])]
    exact .refl

def keepNegotiation (s : Session) (clock : Clock) : Traced Session :=
  if s.negotiation.any (·.isOver clock) then s.onNegotiationTimeout else pure s

theorem keepNegotiation_idle (s : Session) (clock : Clock) :
    ∀ a ∈ (s.keepNegotiation clock).actions, a.isIdle = true := by
  unfold keepNegotiation
  split <;> simp [onNegotiationTimeout, Action.isIdle]

theorem keepNegotiation_value (s : Session) (clock : Clock) :
    (s.keepNegotiation clock).value
      = { s with negotiation := (s.keepNegotiation clock).value.negotiation } := by
  unfold keepNegotiation
  split <;> rfl

theorem keepTime_of_established {w : Writer} {t : Tracker} (h : s.phase = .established w t)
    (clock : Clock) :
    let k := s.keepNegotiation clock
    let v := (s.timerLoop t).run s.timer clock
    s.keepTime clock
      = ⟨({ k.value with
            alarm := v.value.alarm, readings := v.value.readings
            phase := .established w v.value.tracker }, v.value.crash), k.actions ++ v.actions⟩ := by
  unfold keepTime keepNegotiation
  split <;> simp [onNegotiationTimeout, cancelNegotiationTimeout, timerLoop, h, bind, pure]

theorem keepTime_of_none (h : s.traffic? = none) (clock : Clock) :
    s.keepTime clock
      = ⟨((s.keepNegotiation clock).value, none), (s.keepNegotiation clock).actions⟩ := by
  unfold keepTime keepNegotiation
  rcases traffic?_eq_none.1 h with h | h <;> split <;>
    simp [onNegotiationTimeout, cancelNegotiationTimeout, h, bind, pure]

theorem deadlineOf_snd (s : Session) (clock : Clock) (options : Options) :
    (s.deadlineOf clock options).2
      = { s with readings := (s.deadlineOf clock options).2.readings } := by
  unfold deadlineOf
  split
  · split <;> rfl
  · rfl

theorem dispatch_of_none (h : s.traffic? = none) (clock : Clock) (options : Options)
    (request : Request) (sink : Nat) :
    s.dispatch clock options request sink = s.refuse sink := by
  rcases traffic?_eq_none.1 h with h | h <;> simp [Session.dispatch, h]

structure SameOutsideTraffic (s r : Session) : Prop where
  protocol : r.protocol = s.protocol
  transportClosed : r.transportClosed = s.transportClosed
  resting : s.traffic? = none → r.phase = s.phase ∧ r.dispatched = s.dispatched
  ceiling : r.ceiling = s.ceiling

namespace SameOutsideTraffic

theorem refl (s : Session) : SameOutsideTraffic s s := ⟨rfl, rfl, fun _ => ⟨rfl, rfl⟩, rfl⟩

theorem working {r : Session} {w : Writer} {t : Tracker} (h : s.phase = .established w t)
    (hp : r.protocol = s.protocol) (hc : r.transportClosed = s.transportClosed)
    (hk : r.ceiling = s.ceiling) : SameOutsideTraffic s r :=
  ⟨hp, hc, fun hn => by simp [traffic?, h] at hn, hk⟩

end SameOutsideTraffic

theorem mapWriter_sameOutsideTraffic (s : Session) (f : Writer → Writer) : s.SameOutsideTraffic (s.mapWriter f) := by
  unfold mapWriter
  cases h : s.phase with
  | established w t => exact .working h rfl rfl rfl
  | _ => exact .refl s

theorem dispatch_sameOutsideTraffic (s : Session) (clock : Clock) (options : Options) (request : Request)
    (sink : Nat) : s.SameOutsideTraffic (s.dispatch clock options request sink).value.1 := by
  have hsame := deadlineOf_snd s clock options
  unfold Session.dispatch
  split
  · rename_i w t h
    split
    · generalize s.deadlineOf clock options = due at hsame ⊢
      dsimp only
      rw [hsame]
      split <;> exact .working h rfl rfl rfl
    · exact .refl s
  · exact .refl s

theorem response_sameOutsideTraffic (s : Session) (stream : Option StreamId) (part : Part) :
    s.SameOutsideTraffic (s.onResponse stream part).value.1 := by
  unfold onResponse
  cases h : s.phase with
  | established w t => exact .working h rfl rfl rfl
  | _ => exact .refl s

theorem keepTime_sameOutsideTraffic (s : Session) (clock : Clock) : s.SameOutsideTraffic (s.keepTime clock).value.1 := by
  have hsame := keepNegotiation_value s clock
  cases h : s.traffic? with
  | none =>
      rw [keepTime_of_none h]
      dsimp only
      rw [hsame]
      exact ⟨rfl, rfl, fun _ => ⟨rfl, rfl⟩, rfl⟩
  | some c =>
      have hphase := (traffic?_eq_some h).1
      rw [keepTime_of_established hphase]
      dsimp only
      rw [hsame]
      exact .working hphase rfl rfl rfl

theorem write_sameOutsideTraffic (s : Session) (clock : Clock) (gone : Nat → Bool) :
    s.SameOutsideTraffic (s.write clock gone).value.1 := by
  unfold Session.write
  cases h : s.phase with
  | established w t => exact .working h rfl rfl rfl
  | _ => exact .refl s

theorem respond_sameOutsideTraffic (s : Session) {i : Input} (hi : i.isTurning = false) :
    s.SameOutsideTraffic (s.respond i).value := by
  cases i with
  | negotiated | negotiationFailed | closed | dropped => simp [Input.isTurning] at hi
  | dispatch clock options request sink =>
      simpa [respond] using dispatch_sameOutsideTraffic s clock options request sink
  | response stream part => simpa [respond] using response_sameOutsideTraffic s stream part
  | message m =>
      simp only [respond, onMessage]
      split <;> exact .refl s
  | keepTime clock => simpa [respond] using keepTime_sameOutsideTraffic s clock
  | write clock gone => simpa [respond] using write_sameOutsideTraffic s clock gone
  | wire f =>
      obtain ⟨hp, hc, hr, hk⟩ := mapWriter_sameOutsideTraffic
        { s with channel := { s.channel with wire := f s.channel.wire } } _
      exact ⟨hp, hc, hr, hk⟩
  | sink f =>
      obtain ⟨hp, hc, hr, hk⟩ := mapWriter_sameOutsideTraffic
        { s with channel := { s.channel with frames := s.channel.frames.map f } } _
      exact ⟨hp, hc, hr, hk⟩
  | feed source frames ended => exact mapWriter_sameOutsideTraffic s _
  | fire =>
      obtain ⟨hp, hc, hr, hk⟩ := mapWriter_sameOutsideTraffic { s with
        negotiation := s.negotiation.map Sleep.fire, alarm := s.alarm.map Sleep.fire } Writer.fire
      exact ⟨hp, hc, hr, hk⟩
  | _ => exact ⟨rfl, rfl, fun _ => ⟨rfl, rfl⟩, rfl⟩

theorem respond_idle (hn : s.traffic? = none) {i : Input} (hi : i.isTurning = false)
    (hd : i.debts = []) :
    ∀ a ∈ (s.respond i).actions, a.isIdle = true := by
  cases i with
  | negotiated | negotiationFailed | closed | dropped => simp [Input.isTurning] at hi
  | dispatch => simp [Input.debts] at hd
  | response stream part =>
      rcases traffic?_eq_none.1 hn with h | h <;> simp [respond, onResponse, h, Action.isIdle]
  | message m =>
      simp only [respond, onMessage]
      split <;> simp [Action.isIdle]
  | transportError e =>
      simp only [respond, onTransportError]
      split <;> simp [Action.isIdle]
  | keepTime clock => simpa [respond, keepTime_of_none hn] using keepNegotiation_idle s clock
  | write clock gone =>
      rcases traffic?_eq_none.1 hn with h | h <;> simp [respond, Session.write, h]
  | _ => simp [respond]

theorem respond_quiet (hn : s.traffic? = none) (i : Input) :
    ∀ a ∈ (s.respond i).actions, a.isQuiet = true := by
  cases i with
  | negotiated promise reachable p => exact onNegotiated_quiet s promise reachable p
  | negotiationFailed fault => exact onNegotiationFailed_quiet s fault
  | closed promise => exact onTransportClosed_quiet s promise
  | dropped reason => exact abandon_quiet s reason
  | dispatch clock options request sink =>
      simp [respond, dispatch_of_none hn, refuse, Action.isQuiet]
  | _ => exact fun a ha => Action.isQuiet_of_isIdle (respond_idle hn rfl rfl a ha)

theorem respond_refuses (hn : s.traffic? = none) (i : Input) :
    Accounts i.debts (s.respond i).actions [] := by
  have hnone := debts_of_none hn
  cases i with
  | negotiated promise reachable p => exact onNegotiated_settles hn promise reachable p
  | negotiationFailed fault =>
      have hfailed := s.onNegotiationFailed_settles fault
      rwa [hnone] at hfailed
  | dropped reason =>
      have hgone := s.abandon_settles reason
      rwa [hnone] at hgone
  | closed promise =>
      cases h : s.transportClosed with
      | true =>
          rw [respond, onTransportClosed_again h]
          exact .refl
      | false =>
          have hclosed := onTransportClosed_settles h promise
          rwa [hnone] at hclosed
  | dispatch clock options request sink =>
      rw [respond, dispatch_of_none hn]
      exact List.Perm.refl [Debt.reply sink]
  | _ => exact .of_isIdle (respond_idle hn rfl rfl)

theorem respond_protocol (h : s.phase ≠ .negotiating) (i : Input) :
    (s.respond i).value.protocol = s.protocol := by
  cases i with
  | negotiated promise reachable p => rw [respond, onNegotiated_ignored h]
  | negotiationFailed fault => rw [respond, onNegotiationFailed_value]; rfl
  | dropped reason => rw [respond, abandon_value]; rfl
  | closed promise =>
      cases hc : s.transportClosed with
      | true => rw [respond, onTransportClosed_again hc]
      | false => rw [respond, onTransportClosed_value hc]; rfl
  | _ => exact (respond_sameOutsideTraffic s rfl).protocol

theorem respond_transportClosed {i : Input} (hi : ∀ promise, i ≠ .closed promise) :
    (s.respond i).value.transportClosed = s.transportClosed := by
  cases i with
  | closed promise => exact absurd rfl (hi promise)
  | negotiated promise reachable p =>
      by_cases h : s.phase = .negotiating
      · obtain ⟨fault, he⟩ | ⟨encoder, -, hv, -⟩ := onNegotiated_cases h promise reachable p
        · rw [respond, he, onNegotiationFailed_value]; rfl
        · rw [respond, hv]
      · rw [respond, onNegotiated_ignored h]
  | negotiationFailed fault => rw [respond, onNegotiationFailed_value]
  | dropped reason => rw [respond, abandon_value]
  | _ => exact (respond_sameOutsideTraffic s rfl).transportClosed

theorem respond_ceiling (s : Session) (i : Input) : (s.respond i).value.ceiling = s.ceiling := by
  cases i with
  | negotiated promise reachable p =>
      by_cases h : s.phase = .negotiating
      · obtain ⟨fault, he⟩ | ⟨encoder, -, hv, -⟩ := onNegotiated_cases h promise reachable p
        · rw [respond, he, onNegotiationFailed_value]
          rfl
        · rw [respond, hv]
      · rw [respond, onNegotiated_ignored h]
  | negotiationFailed fault => rw [respond, onNegotiationFailed_value]
  | dropped reason => rw [respond, abandon_value]
  | closed promise =>
      cases hc : s.transportClosed with
      | true => rw [respond, onTransportClosed_again hc]
      | false => rw [respond, onTransportClosed_value hc]
  | _ => exact (respond_sameOutsideTraffic s rfl).ceiling

theorem respond_resting (hn : s.traffic? = none) {i : Input} (hi : i.isTurning = false) :
    (s.respond i).value.phase = s.phase ∧ (s.respond i).value.dispatched = s.dispatched
      ∧ (s.respond i).value.protocol = s.protocol := by
  obtain ⟨hp, -, hrest, -⟩ := respond_sameOutsideTraffic s hi
  obtain ⟨hphase, hd⟩ := hrest hn
  exact ⟨hphase, hd, hp⟩

theorem respond_closed (h : s.phase = .closed) (i : Input) : (s.respond i).value.phase = .closed := by
  have hnone : s.traffic? = none := traffic?_eq_none.2 (.inr h)
  cases i with
  | negotiated promise reachable p => rwa [respond, onNegotiated_ignored (by simp [h])]
  | negotiationFailed fault => rw [respond, onNegotiationFailed_value]
  | dropped reason => rw [respond, abandon_value]
  | closed promise =>
      cases hc : s.transportClosed with
      | true => rwa [respond, onTransportClosed_again hc]
      | false => rw [respond, onTransportClosed_value hc]
  | _ => exact (respond_resting hnone rfl).1.trans h

theorem respond_negotiating (h : s.phase = .negotiating) (i : Input) :
    ((s.respond i).value.phase = .negotiating
        ∧ (s.respond i).value.dispatched = s.dispatched ∧ (s.respond i).value.protocol = s.protocol)
      ∨ ((s.respond i).value.phase = .closed ∧ (s.respond i).value.protocol = s.protocol)
      ∨ ∃ p encoder, (s.respond i).value.protocol = some p
        ∧ p.isMultiplex = (encoder.binding == .byStream)
        ∧ (s.respond i).value.traffic?
          = some { Traffic.fresh s.ceiling encoder s.timer with dispatched := s.dispatched } := by
  have hnone : s.traffic? = none := traffic?_eq_none.2 (.inl h)
  cases i with
  | negotiated promise reachable p =>
      obtain ⟨fault, he⟩ | ⟨encoder, hp, hv, -⟩ := onNegotiated_cases h promise reachable p
      · rw [respond, he, onNegotiationFailed_value]
        exact .inr (.inl ⟨rfl, rfl⟩)
      · rw [respond, hv]
        exact .inr (.inr ⟨p, encoder, rfl, hp, rfl⟩)
  | negotiationFailed fault =>
      rw [respond, onNegotiationFailed_value]
      exact .inr (.inl ⟨rfl, rfl⟩)
  | dropped reason =>
      rw [respond, abandon_value]
      exact .inr (.inl ⟨rfl, rfl⟩)
  | closed promise =>
      cases hc : s.transportClosed with
      | true =>
          rw [respond, onTransportClosed_again hc]
          exact .inl ⟨h, rfl, rfl⟩
      | false =>
          rw [respond, onTransportClosed_value hc]
          exact .inr (.inl ⟨rfl, rfl⟩)
  | _ =>
      exact .inl ⟨(respond_resting hnone rfl).1.trans h, (respond_resting hnone rfl).2⟩

end Session

end HttpSession
