import HttpSession.Clock
import HttpSession.Encoder

namespace HttpSession

structure Upload where
  seq : Nat
  head : Head
  body : Body
  limit : Option Span
  deriving DecidableEq, Repr

structure InFlight where
  seq : Nat
  body : Body
  timeout : Option Sleep
  deriving DecidableEq, Repr

inductive Stage where
  | waiting (body : Body)
  | done
  | failed (fault : Fault)
  | crashed (text : String) (body : Body)
  deriving DecidableEq, Repr

structure Transfer where
  encoder : Encoder
  actions : List Action
  stage : Stage
  deriving DecidableEq, Repr

namespace Transfer

def after (actions : List Action) (t : Transfer) : Transfer :=
  { t with actions := actions ++ t.actions }

def giveUp (encoder : Encoder) (seq : Nat) (fault : Fault) : Transfer :=
  let given := encoder.put seq .reset
  ⟨given.encoder, given.actions seq .reset, .failed fault⟩

def send (encoder : Encoder) (seq : Nat) (piece : Piece) (next : Encoder → Transfer) : Transfer :=
  let sent := encoder.put seq piece
  match sent.fault with
  | none => (next sent.encoder).after (sent.actions seq piece)
  | some fault => (giveUp sent.encoder seq fault).after (sent.actions seq piece)

def sendLast (encoder : Encoder) (seq : Nat) (piece : Piece) : Transfer :=
  send encoder seq piece fun encoder => ⟨encoder, [], .done⟩

/-- Sends frames while there are any. The end flag is set on the frame after which the body
announces its end; without such a frame an empty one is sent. -/
def run (seq : Nat) (body : Body) (encoder : Encoder) : List Frame → Transfer
  | [] =>
      if body.ended then sendLast encoder seq (.data [] true)
      else ⟨encoder, [], .waiting { body with frames := [] }⟩
  | .pending :: rest => ⟨encoder, [], .waiting { body with frames := rest }⟩
  | .crash text :: rest => ⟨encoder, [], .crashed text { body with frames := rest }⟩
  | .failure cause :: _ => giveUp encoder seq (Fault.userBody cause)
  | .trailers fields :: _ => sendLast encoder seq (.trailers fields)
  | .data octets :: rest =>
      if { body with frames := rest }.isEnd then sendLast encoder seq (.data octets true)
      else send encoder seq (.data octets false) fun encoder => run seq body encoder rest

end Transfer

namespace InFlight

def isLate (f : InFlight) (clock : Clock) : Bool :=
  f.timeout.any (·.isOver clock)

def poll (f : InFlight) (clock : Clock) (encoder : Encoder) : Transfer :=
  if f.isLate clock then Transfer.giveUp encoder f.seq Fault.writeTimeout
  else Transfer.run f.seq f.body encoder f.body.frames

end InFlight

end HttpSession
