import HttpSession.Fault.Stream

namespace HttpSession

namespace Fault

inductive Kind where
  | negotiation
  | closedSession
  | protocolViolation
  | canceled
  | io
  | bodyWrite
  | tooLarge
  | responseTimeout
  | writeTimeout
  | userBody
  | dispatchGone
  | http2
  deriving DecidableEq, Repr

def Kind.message : Kind → String
  | .negotiation => "session protocol negotiation failed"
  | .closedSession => "session closed"
  | .protocolViolation => "received unexpected message from connection"
  | .canceled => "operation was canceled"
  | .io => "connection error"
  | .bodyWrite => "error writing a request to connection"
  | .tooLarge => "response content exceeds the maximum length"
  | .responseTimeout => "response timed out"
  | .writeTimeout => "request write timed out"
  | .userBody => "error from user's Body stream"
  | .dispatchGone => "dispatch task is gone"
  | .http2 => "http2 error"

def Kind.label : Kind → String
  | .negotiation => "Negotiation"
  | .closedSession => "ClosedSession"
  | .protocolViolation => "ProtocolViolation"
  | .canceled => "Canceled"
  | .io => "Io"
  | .bodyWrite => "BodyWrite"
  | .tooLarge => "TooLarge"
  | .responseTimeout => "ResponseTimeout"
  | .writeTimeout => "WriteTimeout"
  | .userBody => "User(Body)"
  | .dispatchGone => "User(DispatchGone)"
  | .http2 => "Http2"

inductive Root where
  | text (message : String)
  | timedOut
  | io (e : IoError)
  | stream (f : StreamFault)
  deriving DecidableEq, Repr

def Root.message : Root → String
  | .text message => message
  | .timedOut => "operation timed out"
  | .io e => e.message
  | .stream f => f.message

def Root.debug : Root → String
  | .text message => Text.quoted message
  | .timedOut => "TimedOut"
  | .io e => e.debug
  | .stream f => f.debug

end Fault

/-- A fault of the session: its own kind, the kinds of the faults that it wraps, outermost first,
and the root of the chain. -/
structure Fault where
  kind : Fault.Kind
  wrapped : List Fault.Kind
  root : Option Fault.Root
  deriving DecidableEq, Repr

namespace Fault

inductive Cause where
  | root (r : Root)
  | fault (f : Fault)
  deriving DecidableEq, Repr

def of (kind : Kind) : Fault :=
  ⟨kind, [], none⟩

def because (kind : Kind) : Cause → Fault
  | .root r => ⟨kind, [], some r⟩
  | .fault f => ⟨kind, f.kind :: f.wrapped, f.root⟩

def negotiation (cause : Cause) : Fault := because .negotiation cause

def negotiationTimeout : Fault := because .negotiation (.root .timedOut)

def closedSession : Fault := of .closedSession

def violation (text : String) : Fault := because .protocolViolation (.root (.text text))

def canceled : Fault := of .canceled

def promiseDropped : Fault := because .canceled (.root (.text "session promise dropped"))

def ofIo (e : IoError) : Fault := because .io (.root (.io e))

def bodyWrite (e : IoError) : Fault := because .bodyWrite (.root (.io e))

def tooLarge : Fault := of .tooLarge

def responseTimeout : Fault := because .responseTimeout (.root .timedOut)

def writeTimeout : Fault := because .writeTimeout (.root .timedOut)

def userBody (cause : Cause) : Fault := because .userBody cause

def dispatchGone (reason : String) : Fault := because .dispatchGone (.root (.text reason))

def ofStream : StreamFault → Fault
  | .io e => ofIo e
  | f => because .http2 (.root (.stream f))

def message (f : Fault) : String := f.kind.message

def sources (f : Fault) : List String :=
  f.wrapped.map Kind.message ++ f.root.toList.map Root.message

def isNegotiation (f : Fault) : Bool := f.kind == .negotiation

def isClosed (f : Fault) : Bool := f.kind == .closedSession

def isProtocolViolation (f : Fault) : Bool := f.kind == .protocolViolation

def isCanceled (f : Fault) : Bool := f.kind == .canceled

def isIo (f : Fault) : Bool := f.kind == .io

def isBodyWrite (f : Fault) : Bool := f.kind == .bodyWrite || f.kind == .writeTimeout

def isTooLarge (f : Fault) : Bool := f.kind == .tooLarge

def isUser (f : Fault) : Bool := f.kind == .userBody || f.kind == .dispatchGone

def isTimeout (f : Fault) : Bool :=
  f.kind == .responseTimeout || f.kind == .writeTimeout || f.root == some .timedOut

def streamReason (f : Fault) : Reason :=
  match f.root with
  | some (.stream s) => s.reason?.getD Reason.internalError
  | _ => Reason.internalError

def classes (f : Fault) : List String :=
  [("body_write", f.isBodyWrite), ("canceled", f.isCanceled), ("closed", f.isClosed),
    ("io", f.isIo), ("negotiation", f.isNegotiation),
    ("protocol_violation", f.isProtocolViolation), ("timeout", f.isTimeout),
    ("too_large", f.isTooLarge), ("user", f.isUser)].filterMap
      fun entry => if entry.2 then some entry.1 else none

def debugChain (root : Option Root) : List Kind → Option String
  | [] => root.map Root.debug
  | kind :: rest =>
      some (Text.applied "hyper_session::Error"
        (kind.label :: (debugChain root rest).toList))

def debug (f : Fault) : String :=
  Text.applied "hyper_session::Error" (f.kind.label :: (debugChain f.root f.wrapped).toList)

end Fault

end HttpSession
