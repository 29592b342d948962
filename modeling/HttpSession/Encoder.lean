import HttpSession.Encoder.Http1
import HttpSession.Encoder.Http2

namespace HttpSession

inductive Encoder where
  | http1 (framing : Framing) (wire : Wire)
  | http2 (sink : FrameSink)
  deriving DecidableEq, Repr

structure Emission where
  encoder : Encoder
  calls : List Call
  fault : Option Fault
  deriving DecidableEq, Repr

def Emission.actions (sent : Emission) (seq : Nat) (piece : Piece) : List Action :=
  sent.calls.map Action.call ++ [.encode seq piece sent.fault.isNone]

namespace Encoder

def onWire (f : Wire → Wire) : Encoder → Encoder
  | .http1 framing wire => .http1 framing (f wire)
  | .http2 sink => .http2 sink

def onSink (f : FrameSink → FrameSink) : Encoder → Encoder
  | .http1 framing wire => .http1 framing wire
  | .http2 sink => .http2 (f sink)

def ofWrites (framing : Framing) (written : Wire × List Call × Option Fault) : Emission :=
  ⟨.http1 framing written.1, written.2.1, written.2.2⟩

def ofFrame (sent : FrameSink × List Call × Option Fault) : Emission :=
  ⟨.http2 sent.1, sent.2.1, sent.2.2⟩

def headers (encoder : Encoder) (seq : Nat) (head : Head) (last : Bool) : Emission :=
  match encoder with
  | .http1 _ wire =>
      ofWrites (Http1.framing (Http1.withHost head) last)
        (Http1.writeAll wire [Http1.headBlock head last])
  | .http2 sink =>
      ofFrame (Http2.send sink (.headers (streamOf seq) (Http2.carried head) last))

def data (encoder : Encoder) (seq : Nat) (octets : Octets) (last : Bool) : Emission :=
  match encoder with
  | .http1 framing wire =>
      ofWrites framing (Http1.writeAll wire (Http1.dataWrites framing octets last))
  | .http2 sink => ofFrame (Http2.send sink (.data (streamOf seq) octets last))

def trailers (encoder : Encoder) (seq : Nat) (fields : Fields) : Emission :=
  match encoder with
  | .http1 framing wire =>
      ofWrites framing (Http1.writeAll wire (Http1.trailerWrites framing fields))
  | .http2 sink => ofFrame (Http2.send sink (.trailers (streamOf seq) fields.withoutHop))

/-- Gives a request up. HTTP/1.1 has no means but to end the octet stream. -/
def reset (encoder : Encoder) (seq : Nat) : Emission :=
  match encoder with
  | .http1 framing wire => ⟨.http1 framing wire.shutdown, [.shutdown], none⟩
  | .http2 sink => ⟨.http2 sink, [.reset (streamOf seq) Reason.cancel], none⟩

def put (encoder : Encoder) (seq : Nat) : Piece → Emission
  | .headers head last => encoder.headers seq head last
  | .data octets last => encoder.data seq octets last
  | .trailers fields => encoder.trailers seq fields
  | .reset => encoder.reset seq

def debug : Encoder → String
  | .http1 framing _ => Text.record "Http1Encoder" [("kind", framing.label)]
  | .http2 _ => "Http2Encoder"

end Encoder

end HttpSession
