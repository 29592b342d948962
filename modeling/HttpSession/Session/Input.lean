import HttpSession.Session.Closing
import HttpSession.Session.Dispatch
import HttpSession.Session.Inbound
import HttpSession.Session.Progress

namespace HttpSession

inductive Input where
  | activate
  | deactivate
  | markFallback
  | negotiated (promise : Promise) (reachable : Bool) (protocol : Protocol)
  | negotiationFailed (fault : Fault)
  | dispatch (clock : Clock) (options : Options) (request : Request) (sink : Nat)
  | response (stream : Option StreamId) (part : Part)
  | message (m : Message)
  | transportError (e : IoError)
  | closed (promise : Promise)
  | dropped (reason : String)
  | keepTime (clock : Clock)
  | write (clock : Clock) (gone : Nat → Bool)
  | publish
  | linked (isOpen : Bool)
  | wire (f : Wire → Wire)
  | sink (f : FrameSink → FrameSink)
  | feed (source : Nat) (frames : List Frame) (ended : Option Bool)
  | fire

namespace Session

def respond (s : Session) : Input → Traced Session
  | .activate => pure s.activate
  | .deactivate => pure s.deactivate
  | .markFallback => pure s.markFallback
  | .negotiated promise reachable protocol => s.onNegotiated promise reachable protocol
  | .negotiationFailed fault => s.onNegotiationFailed fault
  | .dispatch clock options request sink => do
      let taken ← s.dispatch clock options request sink
      return taken.1
  | .response stream part => do
      let judged ← s.onResponse stream part
      return judged.1
  | .message m => do
      let judged ← s.onMessage m
      return judged.1
  | .transportError e => do
      let judged ← s.onTransportError e
      return judged.1
  | .closed promise => s.onTransportClosed promise
  | .dropped reason => s.abandon reason
  | .keepTime clock => do
      let kept ← s.keepTime clock
      return kept.1
  | .write clock gone => do
      let written ← s.write clock gone
      return written.1
  | .publish => pure s.publish
  | .linked isOpen => pure { s with channel := { s.channel with isOpen := isOpen } }
  | .wire f => pure (s.onWire f)
  | .sink f => pure (s.onFrames f)
  | .feed source frames ended => pure (s.feed source frames ended)
  | .fire => pure s.fire

end Session

end HttpSession
