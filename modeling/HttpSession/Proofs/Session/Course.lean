import HttpSession.Proofs.Session.Phase

namespace HttpSession.Session

open Happening (ofActions)

variable {s : Session} {c : Traffic}

theorem dispatch_of_room (h : s.traffic? = some c) (room : c.hasRoom = true) (clock : Clock)
    (options : Options) (request : Request) (sink : Nat) :
    let taken := s.dispatch clock options request sink
    let enrolled := c.enroll options request sink (s.deadlineOf clock options).1
    taken.value.1.traffic? = some enrolled.value ∧ taken.actions = enrolled.actions := by
  obtain ⟨hphase, hd, hc⟩ := traffic?_eq_some h
  have hfree : (decide (s.dispatched < s.ceiling) && !c.tracker.isClosing) = true := by
    rw [hd, hc]
    exact room
  have hsame := deadlineOf_snd s clock options
  dsimp only
  unfold Session.dispatch
  rw [hphase]
  simp only [hfree, if_true]
  generalize s.deadlineOf clock options = due at hsame ⊢
  rw [hsame]
  by_cases hlast : c.ceiling ≤ c.dispatched + 1 <;>
    simp [hd, hc, hlast, deactivate, traffic?, Traffic.enroll]

theorem dispatch_of_full (h : s.traffic? = some c) (full : c.hasRoom = false) (clock : Clock)
    (options : Options) (request : Request) (sink : Nat) :
    s.dispatch clock options request sink = s.refuse sink := by
  obtain ⟨hphase, hd, hc⟩ := traffic?_eq_some h
  have hnone : (decide (s.dispatched < s.ceiling) && !c.tracker.isClosing) = false := by
    rw [hd, hc]
    exact full
  simp [Session.dispatch, hphase, hnone]

theorem dispatch_established (h : s.traffic? = some c) (clock : Clock) (options : Options)
    (request : Request) (sink : Nat) :
    ∃ d, (s.dispatch clock options request sink).value.1.traffic? = some d
      ∧ Traffic.Path Traffic.Move c (.input (.dispatch clock options request sink)
          :: ofActions (s.dispatch clock options request sink).actions) d := by
  cases hroom : c.hasRoom with
  | true =>
      obtain ⟨hvalue, hactions⟩ := dispatch_of_room h hroom clock options request sink
      exact ⟨_, hvalue, hactions ▸ .single (.enroll clock options request sink _ hroom)⟩
  | false =>
      rw [dispatch_of_full h hroom]
      exact ⟨c, h, .single (.refuse clock options request sink hroom)⟩

theorem response_established (h : s.traffic? = some c) (stream : Option StreamId) (part : Part) :
    (s.respond (.response stream part)).value.traffic? = some (c.receive stream part).value
      ∧ (s.respond (.response stream part)).actions = (c.receive stream part).actions := by
  obtain ⟨hphase, hd, hc⟩ := traffic?_eq_some h
  constructor
  · simp [respond, onResponse, hphase, traffic?, Traffic.receive, hd, hc]
  · simp [respond, onResponse, hphase, Traffic.receive]

theorem write_established (h : s.traffic? = some c) (clock : Clock) (gone : Nat → Bool) :
    let done := Written.of clock gone c.writer c.tracker
    (s.respond (.write clock gone)).value.traffic?
        = some { c with writer := done.value.writer, tracker := done.value.tracker }
      ∧ (s.respond (.write clock gone)).actions = done.actions := by
  obtain ⟨hphase, hd, hc⟩ := traffic?_eq_some h
  constructor
  · simp [respond, Session.write, hphase, traffic?, hd, hc]
  · simp [respond, Session.write, hphase]

theorem wire_established (h : s.traffic? = some c) (f : Wire → Wire) :
    (s.respond (.wire f)).value.traffic? = some (c.encode (c.writer.encoder.onWire f)) := by
  obtain ⟨hphase, hd, hc⟩ := traffic?_eq_some h
  simp [respond, onWire, mapWriter, hphase, traffic?, Traffic.encode, hd, hc]

theorem sink_established (h : s.traffic? = some c) (f : FrameSink → FrameSink) :
    (s.respond (.sink f)).value.traffic? = some (c.encode (c.writer.encoder.onSink f)) := by
  obtain ⟨hphase, hd, hc⟩ := traffic?_eq_some h
  simp [respond, onFrames, mapWriter, hphase, traffic?, Traffic.encode, hd, hc]

theorem feed_established (h : s.traffic? = some c) (source : Nat) (frames : List Frame)
    (ended : Option Bool) :
    (s.respond (.feed source frames ended)).value.traffic?
      = some { c with writer := c.writer.feed source frames ended } := by
  obtain ⟨hphase, hd, hc⟩ := traffic?_eq_some h
  simp [respond, Session.feed, mapWriter, hphase, traffic?, hd, hc]

theorem idle_established (i : Input) {actions : List Action} (hi : i.isIdle = true)
    (ha : ∀ a ∈ actions, a.isIdle = true) :
    Traffic.Path Traffic.Move c (.input i :: ofActions actions) c := by
  refine .single (.idle _ fun x hx => ?_)
  rcases List.mem_cons.1 hx with rfl | hx
  · exact hi
  · obtain ⟨a, hmem, rfl⟩ := List.mem_map.1 hx
    exact ha a hmem

structure Ends (s : Session) (i : Input) : Prop where
  turning : i.isTurning = true
  closed : (s.respond i).value.phase = .closed
  quiet : ∀ a ∈ (s.respond i).actions, a.isQuiet = true
  settled : Accounts (i.debts ++ s.debts) (s.respond i).actions []

theorem respond_established (h : s.traffic? = some c) (i : Input) :
    (∃ d, (s.respond i).value.traffic? = some d
        ∧ Traffic.Path Traffic.Move c (.input i :: ofActions (s.respond i).actions) d)
      ∨ s.Ends i := by
  obtain ⟨hphase, hd, hc⟩ := traffic?_eq_some h
  cases i with
  | negotiated promise reachable protocol =>
      refine .inl ⟨c, ?_, idle_established _ rfl ?_⟩ <;>
        simp [respond, onNegotiated_ignored, hphase, h]
  | negotiationFailed fault =>
      refine .inr ⟨rfl, ?_, onNegotiationFailed_quiet s fault, onNegotiationFailed_settles s fault⟩
      rw [respond, onNegotiationFailed_value]
  | dropped reason =>
      refine .inr ⟨rfl, ?_, abandon_quiet s reason, abandon_settles s reason⟩
      rw [respond, abandon_value]
  | closed promise =>
      cases hclosed : s.transportClosed with
      | true =>
          refine .inl ⟨c, ?_, idle_established _ rfl ?_⟩ <;>
            simp [respond, onTransportClosed_again hclosed, h]
      | false =>
          refine .inr ⟨rfl, ?_, onTransportClosed_quiet s promise,
            onTransportClosed_settles hclosed promise⟩
          rw [respond, onTransportClosed_value hclosed]
  | dispatch clock options request sink =>
      simpa [respond] using .inl (dispatch_established h clock options request sink)
  | response stream part =>
      obtain ⟨hvalue, hactions⟩ := response_established h stream part
      exact .inl ⟨_, hvalue, hactions ▸ .single (.receive stream part)⟩
  | keepTime clock =>
      have hidle := idle_established (c := c) (.keepTime clock) rfl (keepNegotiation_idle s clock)
      have hloop := Traffic.timerLoop_path s.timer clock (s.timerLoop c.tracker) c
      refine .inl ⟨_, ?_, by
        simpa [respond, keepTime_of_established hphase] using hidle.trans hloop⟩
      simp only [respond, keepTime_of_established hphase, Traced.value_bind, Traced.value_pure]
      rw [traffic?_of_phase rfl, keepNegotiation_value]
      simp [hd, hc]
  | write clock gone =>
      have hidle : Traffic.Path Traffic.Move c (.input (.write clock gone) :: ofActions []) c :=
        idle_established _ rfl (by simp)
      obtain ⟨hvalue, hactions⟩ := write_established h clock gone
      refine .inl ⟨_, hvalue, hactions ▸ ?_⟩
      simpa using hidle.trans ((Traffic.written_path clock gone c).mono (.write clock gone))
  | message m =>
      refine .inl ⟨c, ?_, idle_established _ rfl ?_⟩ <;> simp only [respond, onMessage] <;> split <;>
        simp [h, Action.isIdle]
  | transportError e =>
      refine .inl ⟨c, ?_, idle_established _ rfl ?_⟩ <;> simp only [respond, onTransportError] <;>
        simp [h, Action.isIdle]
  | wire f => exact .inl ⟨_, wire_established h f, .single (.wire f)⟩
  | sink f => exact .inl ⟨_, sink_established h f, .single (.sink f)⟩
  | feed source frames ended =>
      exact .inl ⟨_, feed_established h source frames ended, .single (.feed source frames ended)⟩
  | fire =>
      refine .inl ⟨_, ?_, .single .fire⟩
      simp [respond, Session.fire, mapWriter, hphase, traffic?, hd, hc]
  | activate | deactivate | markFallback | publish | linked =>
      refine .inl ⟨c, ?_, idle_established _ rfl ?_⟩ <;>
        simp [respond, activate, deactivate, markFallback, publish, traffic?, hphase, hd, hc]

end HttpSession.Session
