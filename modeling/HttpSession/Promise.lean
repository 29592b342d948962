import HttpSession.Action

namespace HttpSession

inductive Establishment where
  | handle (connection : Nat)
  | failed (fault : Fault)
  deriving DecidableEq, Repr

/-- The outcome of an attempt to establish a session. It is settled once; an outcome that arrives
when nobody waits any more is lost. -/
structure Promise where
  settled : Bool
  waiting : Bool
  outcome : Option Establishment
  deriving DecidableEq, Repr

namespace Promise

def new : Promise := ⟨false, true, none⟩

def isWanted (p : Promise) : Bool := !p.settled && p.waiting

def settle (p : Promise) (outcome : Establishment) : Promise :=
  if p.settled then p
  else { p with settled := true, outcome := if p.waiting then some outcome else none }

def leave (p : Promise) : Promise :=
  { p with waiting := false, outcome := none }

def debug (p : Promise) : String :=
  Text.record "EstablishPromise" [("settled", Text.boolean p.settled)]

end Promise

end HttpSession
