import HttpSession.Connection

namespace HttpSession

structure Builder where
  timer : Timer
  negotiationTimeout : Limit
  ceiling : Nat
  deriving DecidableEq, Repr

namespace Builder

def new : Builder :=
  ⟨.absent, .default (some defaultNegotiationTimeout), maxDispatches⟩

def withTimer (b : Builder) (timer : Timer) : Builder :=
  { b with timer := timer }

def withNegotiationTimeout (b : Builder) (span : Option Span) : Builder :=
  { b with negotiationTimeout := .chosen span }

def withCeiling (b : Builder) (ceiling : Nat) : Except String Builder :=
  if 0 < ceiling ∧ ceiling ≤ maxDispatches then .ok { b with ceiling := ceiling }
  else .error ("max_dispatches must be in 1..=" ++ toString maxDispatches)

def session (b : Builder) (clock : Clock) (channel : Channel) (speaksHttp1 : Bool) :
    Except String Session := do
  let span ← b.negotiationTimeout.check b.timer "negotiation_timeout"
  Session.new channel b.timer clock span b.ceiling speaksHttp1

def debug (b : Builder) : String :=
  Text.record "Builder"
    [("negotiation_timeout", b.negotiationTimeout.debug),
      ("max_dispatches", toString b.ceiling)]

end Builder

end HttpSession
