import HttpSession.Session.Basic

namespace HttpSession.Session

def cancelNegotiationTimeout (s : Session) : Session :=
  { s with negotiation := none }

def enterClosed (s : Session) : Traced Session :=
  let fallen := { s with phase := .closed, alarm := none }
  match s.phase with
  | .established _ t => ⟨fallen, (t.failAll Fault.closedSession).actions⟩
  | _ => ⟨fallen, []⟩

def onNegotiationFailed (s : Session) (fault : Fault) : Traced Session := do
  Traced.perform [.refuse fault, .call .close]
  s.cancelNegotiationTimeout.enterClosed

def onNegotiationTimeout (s : Session) : Traced Session :=
  ⟨s.cancelNegotiationTimeout, [.refuse Fault.negotiationTimeout, .call .close]⟩

def speak (s : Session) (protocol : Protocol) : Except Fault (Encoder × Binding) :=
  if protocol.isMultiplex then
    match s.channel.frames with
    | some sink => .ok (.http2 sink, .byStream)
    | none =>
        .error (Fault.negotiation (.root (.text "connection has no active http2 handler")))
  else if s.speaksHttp1 then .ok (.http1 .length s.channel.wire, .ordered)
  else
    .error (Fault.negotiation
      (.root (.text ("session protocol " ++ protocol.name ++ " is not enabled"))))

def onNegotiated (s : Session) (promise : Promise) (reachable : Bool) (protocol : Protocol) :
    Traced Session :=
  match s.phase with
  | .negotiating =>
      let s := s.cancelNegotiationTimeout
      match s.speak protocol with
      | .error fault => s.onNegotiationFailed fault
      | .ok (encoder, binding) =>
          let established := { s with
            status := { s.status with protocol := some protocol }
            phase := .established (Writer.new encoder s.timer (binding == .byStream))
              (Tracker.new binding) }
          ⟨established,
            (if reachable then [.offer] else [])
              ++ (if reachable && promise.isWanted then [] else [.call .close])⟩
  | _ => ⟨s, []⟩

end HttpSession.Session
