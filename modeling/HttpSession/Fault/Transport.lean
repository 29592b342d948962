import HttpSession.Text.Quoted
import HttpSession.Text.Record

namespace HttpSession

inductive IoKind where
  | connectionReset
  | connectionAborted
  | connectionRefused
  | brokenPipe
  | notConnected
  | unexpectedEof
  | timedOut
  | invalidData
  | wouldBlock
  | writeZero
  | interrupted
  | permissionDenied
  | other
  deriving DecidableEq, Repr

namespace IoKind

def label : IoKind → String
  | .connectionReset => "ConnectionReset"
  | .connectionAborted => "ConnectionAborted"
  | .connectionRefused => "ConnectionRefused"
  | .brokenPipe => "BrokenPipe"
  | .notConnected => "NotConnected"
  | .unexpectedEof => "UnexpectedEof"
  | .timedOut => "TimedOut"
  | .invalidData => "InvalidData"
  | .wouldBlock => "WouldBlock"
  | .writeZero => "WriteZero"
  | .interrupted => "Interrupted"
  | .permissionDenied => "PermissionDenied"
  | .other => "Other"

def isBenign : IoKind → Bool
  | .connectionReset | .brokenPipe | .connectionAborted | .notConnected | .unexpectedEof => true
  | _ => false

end IoKind

structure IoError where
  kind : IoKind
  message : String
  deriving DecidableEq, Repr

def IoError.debug (e : IoError) : String :=
  Text.record "Custom" [("kind", e.kind.label), ("error", Text.quoted e.message)]

end HttpSession
