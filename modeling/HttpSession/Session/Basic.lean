import HttpSession.Channel
import HttpSession.Promise
import HttpSession.Tracker
import HttpSession.Writer

namespace HttpSession

/-- A connection carries no more requests than this, so that every stream has a number below
`2 ^ 30`. -/
def maxDispatches : Nat := 1 <<< 29

def defaultNegotiationTimeout : Span := 10 * 1000000000

structure Status where
  active : Bool
  fallback : Bool
  unfinished : Bool
  protocol : Option Protocol
  deriving DecidableEq, Repr

def Status.debug (s : Status) : String :=
  Text.record "SessionHandle"
    [("protocol", Text.optional (s.protocol.map Protocol.label)),
      ("active", Text.boolean s.active)]

inductive Phase where
  | negotiating
  | established (writer : Writer) (tracker : Tracker)
  | closed
  deriving DecidableEq, Repr

def Phase.label : Phase → String
  | .negotiating => "Negotiating"
  | .established _ _ => "Established"
  | .closed => "Closed"

structure Session where
  status : Status
  channel : Channel
  timer : Timer
  readings : Nat
  negotiation : Option Sleep
  alarm : Option Sleep
  dispatched : Nat
  ceiling : Nat
  speaksHttp1 : Bool
  phase : Phase
  transportClosed : Bool
  deriving DecidableEq, Repr

namespace Session

def new (channel : Channel) (timer : Timer) (clock : Clock) (negotiationTimeout : Option Span)
    (ceiling : Nat) (speaksHttp1 : Bool) : Except String Session := do
  let negotiation ← negotiationTimeout.mapM (timer.sleep clock)
  return {
    status := ⟨channel.isOpen, false, false, none⟩
    channel, timer, readings := 0, negotiation, alarm := none
    dispatched := 0, ceiling, speaksHttp1
    phase := .negotiating, transportClosed := false }

def isActive (s : Session) : Bool := s.status.active

def protocol (s : Session) : Option Protocol := s.status.protocol

def tracker? (s : Session) : Option Tracker :=
  match s.phase with
  | .established _ t => some t
  | _ => none

def writer? (s : Session) : Option Writer :=
  match s.phase with
  | .established w _ => some w
  | _ => none

def hasUnfinished (s : Session) : Bool :=
  s.tracker?.any Tracker.hasOutstanding

def activate (s : Session) : Session :=
  { s with status := { s.status with active := true } }

def deactivate (s : Session) : Session :=
  { s with status := { s.status with active := false } }

def markFallback (s : Session) : Session :=
  { s with status := { s.status with fallback := true } }

def publish (s : Session) : Session :=
  { s with status := { s.status with
      active := s.status.active && !s.tracker?.any Tracker.isClosing
      unfinished := s.hasUnfinished } }

def debug (s : Session) : String :=
  Text.record "Session"
    [("state", Text.quoted s.phase.label),
      ("protocol", Text.optional (s.protocol.map Protocol.label)),
      ("active", Text.boolean s.isActive), ("dispatched", toString s.dispatched)]

def mapWriter (s : Session) (f : Writer → Writer) : Session :=
  match s.phase with
  | .established w t => { s with phase := .established (f w) t }
  | _ => s

def onWire (s : Session) (f : Wire → Wire) : Session :=
  { s with channel := { s.channel with wire := f s.channel.wire } }.mapWriter
    fun w => { w with encoder := w.encoder.onWire f }

def onFrames (s : Session) (f : FrameSink → FrameSink) : Session :=
  { s with channel := { s.channel with frames := s.channel.frames.map f } }.mapWriter
    fun w => { w with encoder := w.encoder.onSink f }

def feed (s : Session) (source : Nat) (frames : List Frame) (ended : Option Bool) : Session :=
  s.mapWriter fun w => w.feed source frames ended

def fire (s : Session) : Session :=
  { s with negotiation := s.negotiation.map Sleep.fire, alarm := s.alarm.map Sleep.fire }.mapWriter
    Writer.fire

def sleeps (s : Session) : List Sleep :=
  s.negotiation.toList ++ s.alarm.toList ++ (s.writer?.map Writer.sleeps).getD []

end Session

end HttpSession
