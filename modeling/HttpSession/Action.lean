import HttpSession.Request
import HttpSession.Response
import HttpSession.Stream

namespace HttpSession

inductive Address where
  | v4 (host : Vector UInt8 4) (service : UInt16)
  | v6 (host : Vector UInt16 8) (scope : UInt32) (service : UInt16)
  deriving DecidableEq, Repr

inductive Call where
  | write (octets : Octets) (ok : Bool)
  | shutdown
  | close
  | headers (stream : StreamId) (head : Head) (last : Bool) (ok : Bool)
  | data (stream : StreamId) (octets : Octets) (last : Bool) (ok : Bool)
  | trailers (stream : StreamId) (fields : Fields) (ok : Bool)
  | reset (stream : StreamId) (reason : Reason)
  | connect (address : Address) (protocol : Protocol) (settled : Bool)
  deriving DecidableEq, Repr

inductive Piece where
  | headers (head : Head) (last : Bool)
  | data (octets : Octets) (last : Bool)
  | trailers (fields : Fields)
  | reset
  deriving DecidableEq, Repr

/-- What a session does: it calls the transport, has a piece of a request encoded, gives a request
its number, answers the caller of a request, tells whether a request was accepted, or offers an
outcome to whoever waits for the session. A piece follows the calls that it came to. -/
inductive Action where
  | call (c : Call)
  | encode (seq : Nat) (piece : Piece) (ok : Bool)
  | enroll (seq sink : Nat)
  | answer (sink : Nat) (reply : Reply)
  | accept (sink : Nat) (accepted : Bool)
  | offer
  | refuse (fault : Fault)
  deriving DecidableEq, Repr

/-- A value and the actions that led to it, oldest first. -/
structure Traced (α : Type) where
  value : α
  actions : List Action
  deriving DecidableEq, Repr

namespace Traced

variable {α β : Type}

instance : Monad Traced where
  pure a := ⟨a, []⟩
  bind x f := ⟨(f x.value).value, x.actions ++ (f x.value).actions⟩

@[simp] theorem value_pure (a : α) : (pure a : Traced α).value = a := rfl

@[simp] theorem actions_pure (a : α) : (pure a : Traced α).actions = [] := rfl

@[simp] theorem value_bind (x : Traced α) (f : α → Traced β) :
    (x >>= f).value = (f x.value).value := rfl

@[simp] theorem actions_bind (x : Traced α) (f : α → Traced β) :
    (x >>= f).actions = x.actions ++ (f x.value).actions := rfl

def perform (actions : List Action) : Traced Unit := ⟨(), actions⟩

@[simp] theorem actions_perform (actions : List Action) : (perform actions).actions = actions := rfl

end Traced

end HttpSession
