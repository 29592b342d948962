import HttpSession.Client

namespace HttpSession

inductive Settled where
  | established (promise handle : Nat)
  | refused (promise : Nat) (fault : Fault)
  | accepted (sink : Nat) (accepted : Bool)
  | response (sink : Nat) (reply : Reply)
  | raw (channel : Nat) (reply : Reply)
  deriving DecidableEq, Repr

namespace Client

def isHeld (c : Client) (p : Nat) : Bool :=
  c.waiters[p]?.any Waiter.held
    || c.connections.any (fun x => x.life != .dropped && x.promise == p)
    || c.retries.contains p

def release (c : Client) : Client :=
  { c with waiters := c.waiters.mapIdx fun p w =>
      if c.isHeld p then w
      else { w with promise := w.promise.settle (.failed Fault.promiseDropped) } }

def readPromise (c : Client) (p : Nat) (w : Waiter) : Client × List Settled :=
  match w.promise.outcome with
  | none => (c, [])
  | some (.handle k) =>
      ({ c with handles := c.handles ++ [some k] }.mapWaiter p fun w =>
          { w with promise := w.promise.leave },
        [.established p c.handles.length])
  | some (.failed fault) =>
      (c.mapWaiter p fun w => { w with promise := w.promise.leave, fault := some fault },
        [.refused p fault])

def readPromises (c : Client) : Client × List Settled :=
  c.waiters.zipIdx.foldl
    (fun read entry =>
      let one := read.1.readPromise entry.2 entry.1
      (one.1, read.2 ++ one.2))
    (c, [])

def acceptances (callers : List Caller) : List Settled :=
  callers.zipIdx.filterMap fun entry => entry.1.accepted.map (Settled.accepted entry.2)

def replies (settled : Nat → Reply → Settled) (callers : List Caller) : List Settled :=
  callers.zipIdx.filterMap fun entry => entry.1.reply.map (settled entry.2)

def collect (c : Client) : Client × List Settled :=
  let read := c.release.readPromises
  let c := read.1
  ({ c with callers := c.callers.map Caller.read, channels := c.channels.map Caller.read },
    read.2 ++ acceptances c.callers ++ replies .response c.callers ++ replies .raw c.channels)

def takeFault (c : Client) (sink : Nat) : Client × Option Fault :=
  ({ c with callers := c.callers.modify sink fun x => { x with fault := none } },
    c.callers[sink]?.bind Caller.fault)

def takeRefusal (c : Client) (p : Nat) : Client × Option Fault :=
  (c.mapWaiter p fun w => { w with fault := none }, c.waiters[p]?.bind Waiter.fault)

end Client

end HttpSession
