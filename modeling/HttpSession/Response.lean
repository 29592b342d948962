import HttpSession.Fault
import HttpSession.Field
import HttpSession.Protocol

namespace HttpSession

structure ResponseHead where
  status : Nat
  fields : Fields
  deriving DecidableEq, Repr

namespace ResponseHead

def isInterim (head : ResponseHead) : Bool :=
  100 ≤ head.status && head.status < 200 && head.status != 101

def debug (head : ResponseHead) : String :=
  Text.record "Parts"
    [("status", toString head.status), ("version", Version.http11.text),
      ("headers", head.fields.debug)]

end ResponseHead

inductive Part where
  | head (h : ResponseHead)
  | data (octets : Octets)
  | trailers (fields : Fields)
  | finish
  | reset (reason : Reason)
  deriving DecidableEq, Repr

def Part.debug : Part → String
  | .head h => Text.applied "Head" [h.debug]
  | .data octets => Text.applied "Data" [Text.quotedOctets octets]
  | .trailers fields => Text.applied "Trailers" [fields.debug]
  | .finish => "End"
  | .reset reason => Text.applied "Reset" [reason.debug]

structure Response where
  head : ResponseHead
  body : Octets
  trailers : Option Fields
  deriving DecidableEq, Repr

inductive Reply where
  | complete (response : Response)
  | failed (fault : Fault)
  deriving DecidableEq, Repr

end HttpSession
