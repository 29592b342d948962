import HttpSession.Fault
import HttpSession.Field

namespace HttpSession

inductive Frame where
  | data (octets : Octets)
  | trailers (fields : Fields)
  | failure (cause : Fault.Cause)
  | crash (text : String)
  | pending
  deriving DecidableEq, Repr

/-- A request body: who fills it, the frames it has so far, and whether more may come. A body that
announces its end says so as soon as nothing is left of it. -/
structure Body where
  source : Nat
  frames : List Frame
  ended : Bool
  announced : Bool
  deriving DecidableEq, Repr

namespace Body

def empty (source : Nat) : Body := ⟨source, [], true, true⟩

def full (source : Nat) (octets : Octets) : Body :=
  ⟨source, if octets.isEmpty then [] else [.data octets], true, true⟩

def isEnd (body : Body) : Bool :=
  body.announced && body.ended && body.frames.isEmpty

theorem frames_of_isEnd {body : Body} (h : body.isEnd = true) : body.frames = [] := by
  simp only [isEnd, Bool.and_eq_true, List.isEmpty_iff] at h
  exact h.2

def feed (body : Body) (source : Nat) (frames : List Frame) (ended : Option Bool) : Body :=
  if body.source = source then
    { body with frames := body.frames ++ frames, ended := ended.getD body.ended }
  else body

end Body

end HttpSession
