import HttpSession.Session.Dispatch
import HttpSession.Session.Inbound

namespace HttpSession

structure Envelope where
  options : Options
  request : Request
  sink : Nat
  deriving DecidableEq, Repr

namespace Envelope

def debug (e : Envelope) : String :=
  Text.record "Envelope"
    [("method", Text.ofAscii e.request.head.method),
      ("uri", Text.ofUtf8 e.request.head.target.text)]

def refusal (e : Envelope) : List Action :=
  [.answer e.sink (.failed Fault.closedSession), .accept e.sink false]

def feed (e : Envelope) (source : Nat) (frames : List Frame) (ended : Option Bool) : Envelope :=
  { e with request := { e.request with body := e.request.body.feed source frames ended } }

end Envelope

inductive Event where
  | active
  | negotiated (protocol : Protocol)
  | negotiationFailed (fault : Fault)
  | dispatch (envelope : Envelope)
  | response (stream : Option StreamId) (part : Part)
  | message (m : Message)
  | upgradeFailed
  | error (e : IoError)
  | closed
  deriving DecidableEq, Repr

namespace Event

def refusal : Event → List Action
  | .dispatch envelope => envelope.refusal
  | _ => []

def feed (source : Nat) (frames : List Frame) (ended : Option Bool) : Event → Event
  | .dispatch envelope => .dispatch (envelope.feed source frames ended)
  | e => e

def debug : Event → String
  | .active => "Active"
  | .negotiated protocol => Text.applied "Negotiated" [protocol.label]
  | .negotiationFailed fault => Text.applied "NegotiationFailed" [fault.debug]
  | .dispatch envelope => Text.applied "Dispatch" [envelope.debug]
  | .response stream part =>
      Text.record "Response"
        [("stream_id", Text.optional (stream.map fun id => toString id.toNat)),
          ("part", part.debug)]
  | .message m => Text.applied "Inbound" [m.debug]
  | .upgradeFailed => "UpgradeFailed"
  | .error e => Text.applied "Error" [e.debug]
  | .closed => "Closed"

end Event

end HttpSession
