import HttpSession.Builder
import HttpSession.Client.Caller
import HttpSession.Connection.Poll

namespace HttpSession

/-- A promise and who waits for it. Besides the client itself, connections hold it, and connectors
that were asked to try again. -/
structure Waiter where
  promise : Promise
  held : Bool
  fault : Option Fault
  deriving DecidableEq, Repr

def Waiter.new : Waiter := ⟨Promise.new, true, none⟩

/-- All connections of one client, the promises that they serve, the callers of its requests, and
its handles. Everything is known by its place in its list. -/
structure Client where
  connections : List Connection
  waiters : List Waiter
  callers : List Caller
  channels : List Caller
  handles : List (Option Nat)
  retries : List Nat
  deriving DecidableEq, Repr

namespace Client

def new : Client := ⟨[], [], [], [], [], []⟩

def isGone (c : Client) (sink : Nat) : Bool :=
  c.callers[sink]?.all Caller.isGone

def mapConnection (c : Client) (k : Nat) (f : Connection → Connection) : Client :=
  { c with connections := c.connections.modify k f }

def mapSession (c : Client) (k : Nat) (f : Session → Session) : Client :=
  c.mapConnection k (·.mapSession f)

def mapWaiter (c : Client) (p : Nat) (f : Waiter → Waiter) : Client :=
  { c with waiters := c.waiters.modify p f }

def promise (c : Client) : Client :=
  { c with waiters := c.waiters ++ [Waiter.new] }

def channel (c : Client) : Client :=
  { c with channels := c.channels ++ [Caller.new] }

def caller (c : Client) : Client :=
  { c with callers := c.callers ++ [Caller.new] }

def connect (c : Client) (builder : Builder) (clock : Clock) (channel : Channel)
    (closesAtOnce speaksHttp1 : Bool) (promise : Nat) : Except String Client := do
  let session ← builder.session clock channel speaksHttp1
  let connection := Connection.new c.connections.length promise session closesAtOnce
  return { c with connections := c.connections ++ [connection] }

structure Turn (α : Type) where
  client : Client
  calls : List Call
  result : α
  deriving DecidableEq, Repr

def callsOf (actions : List Action) : List Call :=
  actions.filterMap fun
    | .call call => some call
    | _ => none

def retriesOf (promise : Nat) (calls : List Call) : List Nat :=
  calls.filterMap fun
    | .connect _ _ _ => some promise
    | _ => none

def attempt? (c : Client) (k : Nat) : Option Attempt := do
  let connection ← c.connections[k]?
  let waiter ← c.waiters[connection.promise]?
  return ⟨connection, waiter.promise⟩

def absorb {α : Type} (c : Client) (k : Nat) (t : Logged (Attempt × α)) : Turn α :=
  let a := t.value.1
  let calls := callsOf t.actions
  { client :=
      { c with
        connections := c.connections.set k a.connection
        waiters := c.waiters.modify a.connection.promise fun w => { w with promise := a.promise }
        callers := Caller.after c.callers t.actions
        retries := c.retries ++ retriesOf a.connection.promise calls }
    calls := calls
    result := t.value.2 }

def turn {α : Type} (c : Client) (k : Nat) (f : Attempt → Logged (Attempt × α)) :
    Option (Turn α) :=
  (c.attempt? k).map fun a => c.absorb k (f a)

def poll (c : Client) (k : Nat) (clock : Clock) : Option (Turn Outcome) :=
  c.turn k fun a => a.poll clock c.isGone

def dropConnection (c : Client) (k : Nat) (crashed : Bool) : Option (Turn Unit) :=
  c.turn k fun a => do
    let connection ← a.connection.drop crashed
    return ({ a with connection := connection }, ())

/-- A poll that owns its connection takes it along when user code crashes. -/
def pollOwned (c : Client) (k : Nat) (clock : Clock) : Option (Turn Outcome) := do
  let polled ← c.poll k clock
  match polled.result with
  | .crashed text =>
      let dropped ← polled.client.dropConnection k true
      return ⟨dropped.client, polled.calls ++ dropped.calls, .crashed text⟩
  | _ => return polled

def send (c : Client) (k : Nat) (event : Event) (times : Nat) : Client × List Bool :=
  match c.connections[k]? with
  | some x =>
      let sent := (x.send (List.replicate times event)).value
      (c.mapConnection k fun _ => sent.1, List.replicate times sent.2)
  | none => (c, [])

def connectionOf? (c : Client) (handle : Nat) : Option Nat :=
  (c.handles[handle]?).join

def dispatch (c : Client) (handle : Nat) (options : Options) (request : Request) :
    Option (Turn Nat) := do
  let k ← c.connectionOf? handle
  let sink := c.callers.length
  c.caller.turn k fun a => do
    let connection ← a.connection.submit ⟨options, request, sink⟩
    return ({ a with connection := connection }, sink)

def feed (c : Client) (source : Nat) (frames : List Frame) (ended : Option Bool) : Client :=
  { c with connections := c.connections.map fun x => x.feed source frames ended }

def cancel (c : Client) (sink : Nat) : Client :=
  { c with callers := c.callers.modify sink Caller.leave }

def fireAll (c : Client) : Client :=
  { c with connections := c.connections.map (·.mapSession Session.fire) }

def dropHandle (c : Client) (handle : Nat) : Client :=
  match c.connectionOf? handle with
  | some k =>
      { c with handles := c.handles.set handle none }.mapConnection k
        fun x => { x with handles := x.handles - 1 }
  | none => c

def dropTransport (c : Client) (k : Nat) : Client :=
  c.mapConnection k fun x => { x with transport := false }

def fail (c : Client) (p : Nat) (fault : Fault) : Client :=
  c.mapWaiter p fun w => { w with promise := w.promise.settle (.failed fault) }

def offer (c : Client) (p handle : Nat) : Client :=
  match c.connectionOf? handle, c.waiters[p]? with
  | some k, some w =>
      let c := c.mapWaiter p fun w => { w with promise := w.promise.settle (.handle k) }
      if w.promise.isWanted then
        c.mapConnection k fun x => { x with handles := x.handles + 1 }
      else c
  | _, _ => c

def isWanted (c : Client) (p : Nat) : Bool :=
  c.waiters[p]?.any (·.promise.isWanted)

def dropPromise (c : Client) (p : Nat) : Client :=
  c.mapWaiter p fun w => { w with held := false }

def dropWaiter (c : Client) (p : Nat) : Client :=
  c.mapWaiter p fun w => { w with promise := w.promise.leave }

def dropSink (c : Client) (channel : Nat) : Client :=
  { c with channels := c.channels.modify channel fun x => x.answer Caller.unanswered }

def dropFuture (c : Client) (channel : Nat) : Client :=
  { c with channels := c.channels.modify channel Caller.leave }

end Client

end HttpSession
