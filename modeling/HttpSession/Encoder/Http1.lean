import HttpSession.Outlet

namespace HttpSession

inductive Framing where
  | length
  | chunked
  deriving DecidableEq, Repr

def Framing.label : Framing → String
  | .length => "Length"
  | .chunked => "Chunked"

namespace Http1

def withHost (head : Head) : Fields :=
  if head.fields.contains Field.host then head.fields
  else
    match head.target.authority with
    | some authority => head.fields.insert Field.host authority
    | none => head.fields

def framing (fields : Fields) (last : Bool) : Framing :=
  if last || fields.contains Field.contentLength then .length else .chunked

def framed (fields : Fields) : Framing → Fields
  | .length => fields
  | .chunked =>
      (fields.remove Field.transferEncoding).insert Field.transferEncoding Field.chunked

def requestLine (head : Head) : Octets :=
  head.method ++ [32] ++ head.target.path.getD Target.slash ++ ascii " HTTP/1.1" ++ crlf

def headBlock (head : Head) (last : Bool) : Octets :=
  let fields := withHost head
  requestLine head ++ (framed fields (framing fields last)).block ++ crlf

def lastChunk : Octets := ascii "0" ++ crlf

def dataWrites (framing : Framing) (octets : Octets) (last : Bool) : List Octets :=
  match framing with
  | .length => if octets.isEmpty then [] else [octets]
  | .chunked =>
      (if octets.isEmpty then [] else [upperHex octets.length ++ crlf, octets, crlf])
        ++ (if last then [lastChunk ++ crlf] else [])

def trailerWrites (framing : Framing) (fields : Fields) : List Octets :=
  match framing with
  | .length => []
  | .chunked => [lastChunk ++ fields.block ++ crlf]

def writeAll (wire : Wire) : List Octets → Wire × List Call × Option Fault
  | [] => (wire, [], none)
  | octets :: rest =>
      match wire.write with
      | (some e, wire) => (wire, [.write octets false], some (Fault.bodyWrite e))
      | (none, wire) =>
          let written := writeAll wire rest
          (written.1, .write octets true :: written.2.1, written.2.2)

end Http1

end HttpSession
