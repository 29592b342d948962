import HttpSession.Request

namespace HttpSession

/-- The time that a session reads and the sleeps that are over by then. Between two readings the
clock moves on by its drift. -/
structure Clock where
  now : Instant
  drift : Span
  elapsed : Instant → Bool

def Clock.steady (now : Instant) : Clock := ⟨now, 0, fun deadline => deadline ≤ now⟩

def Clock.reading (clock : Clock) (readings : Nat) : Instant :=
  clock.now + clock.drift * readings

structure Sleep where
  deadline : Instant
  fired : Bool
  deriving DecidableEq, Repr

namespace Sleep

def fire (s : Sleep) : Sleep := { s with fired := true }

def isOver (s : Sleep) (clock : Clock) : Bool :=
  s.fired || clock.elapsed s.deadline

end Sleep

/-- The timer of a session, if it has one. What it says of the time comes with every poll. -/
inductive Timer where
  | absent
  | present
  deriving DecidableEq, Repr

namespace Timer

def isAbsent : Timer → Bool
  | .absent => true
  | .present => false

def debug : String := "Time"

def missing : String := "You must supply a timer."

def sleepUntil (timer : Timer) (deadline : Instant) : Except String Sleep :=
  if timer.isAbsent then .error missing else .ok ⟨deadline, false⟩

def sleep (timer : Timer) (clock : Clock) (span : Span) : Except String Sleep :=
  timer.sleepUntil (clock.now + span)

def reset (timer : Timer) (current : Option Sleep) (deadline : Instant) : Except String Sleep :=
  match current with
  | some s => if s.deadline = deadline then .ok s else timer.sleepUntil deadline
  | none => timer.sleepUntil deadline

end Timer

inductive Limit where
  | default (span : Option Span)
  | chosen (span : Option Span)
  deriving DecidableEq, Repr

namespace Limit

def check (limit : Limit) (timer : Timer) (name : String) : Except String (Option Span) :=
  match limit with
  | .default span => .ok (if timer.isAbsent then none else span)
  | .chosen none => .ok none
  | .chosen (some span) =>
      if timer.isAbsent then .error ("timeout `" ++ name ++ "` set, but no timer set")
      else .ok (some span)

def debug : Limit → String
  | .default span => Text.applied "Default" [Text.optional (span.map Text.span)]
  | .chosen span => Text.applied "Configured" [Text.optional (span.map Text.span)]

end Limit

end HttpSession
