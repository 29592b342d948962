import HttpSession.Fault.Transport

namespace HttpSession

abbrev Reason := UInt32

namespace Reason

def internalError : Reason := 2

def cancel : Reason := 8

def description (r : Reason) : String :=
  match r.toNat with
  | 0 => "not a result of an error"
  | 1 => "unspecific protocol error detected"
  | 2 => "unexpected internal error encountered"
  | 3 => "flow-control protocol violated"
  | 4 => "settings ACK not received in timely manner"
  | 5 => "received frame when stream half-closed"
  | 6 => "frame with invalid size"
  | 7 => "refused stream before processing any application logic"
  | 8 => "stream no longer needed"
  | 9 => "unable to maintain the header compression context"
  | 10 =>
      "connection established in response to a CONNECT request was reset or abnormally closed"
  | 11 => "detected excessive load generating behavior"
  | 12 => "security properties do not meet minimum requirements"
  | 13 => "endpoint requires HTTP/1.1"
  | _ => "unknown reason"

def debug (r : Reason) : String :=
  match r.toNat with
  | 0 => "NO_ERROR"
  | 1 => "PROTOCOL_ERROR"
  | 2 => "INTERNAL_ERROR"
  | 3 => "FLOW_CONTROL_ERROR"
  | 4 => "SETTINGS_TIMEOUT"
  | 5 => "STREAM_CLOSED"
  | 6 => "FRAME_SIZE_ERROR"
  | 7 => "REFUSED_STREAM"
  | 8 => "CANCEL"
  | 9 => "COMPRESSION_ERROR"
  | 10 => "CONNECT_ERROR"
  | 11 => "ENHANCE_YOUR_CALM"
  | 12 => "INADEQUATE_SECURITY"
  | 13 => "HTTP_1_1_REQUIRED"
  | n => Text.applied "Reason" [lowerHex n]

end Reason

inductive StreamFault where
  | reason (r : Reason)
  | io (e : IoError)
  deriving DecidableEq, Repr

namespace StreamFault

def message : StreamFault → String
  | .reason r => "protocol error: " ++ r.description
  | .io e => e.message

def reason? : StreamFault → Option Reason
  | .reason r => some r
  | .io _ => none

def debug : StreamFault → String
  | .reason r => Text.record "Error" [("kind", Text.applied "Reason" [r.debug])]
  | .io e => Text.record "Error" [("kind", Text.applied "Io" [e.debug])]

end StreamFault

end HttpSession
