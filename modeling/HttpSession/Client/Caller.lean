import HttpSession.Action

namespace HttpSession

structure Caller where
  waiting : Bool
  reply : Option Reply
  accepted : Option Bool
  fault : Option Fault
  deriving DecidableEq, Repr

namespace Caller

def new : Caller := ⟨true, none, none, none⟩

def isGone (c : Caller) : Bool := !c.waiting

def leave (c : Caller) : Caller :=
  { c with waiting := false, reply := none }

def answer (c : Caller) (reply : Reply) : Caller :=
  if c.waiting && c.reply.isNone then { c with reply := some reply } else c

def accept (c : Caller) (accepted : Bool) : Caller :=
  if c.accepted.isNone then { c with accepted := some accepted } else c

def failure : Reply → Option Fault
  | .complete _ => none
  | .failed fault => some fault

def read (c : Caller) : Caller :=
  match c.reply with
  | some reply => ⟨false, none, none, failure reply⟩
  | none => { c with accepted := none }

def unanswered : Reply :=
  .failed (Fault.dispatchGone "response dropped without a result")

def sinkDebug : String := "ResponseSink"

def afterOne (callers : List Caller) : Action → List Caller
  | .answer sink reply => callers.modify sink (·.answer reply)
  | .accept sink accepted => callers.modify sink (·.accept accepted)
  | _ => callers

def after (callers : List Caller) (actions : List Action) : List Caller :=
  actions.foldl afterOne callers

end Caller

end HttpSession
