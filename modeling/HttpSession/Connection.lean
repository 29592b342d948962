import HttpSession.Connection.Log

namespace HttpSession

inductive Life where
  | running
  | finished
  | dropped
  deriving DecidableEq, Repr

/-- A session with the events that it has yet to handle. Its queue is open to the transport and to
every handle on the session. A transport that closes at once tells so when it is first asked to. -/
structure Connection where
  id : Nat
  promise : Nat
  session : Session
  queue : List Event
  transport : Bool
  handles : Nat
  closesAtOnce : Bool
  fault : Option Fault
  life : Life
  deriving DecidableEq, Repr

namespace Connection

def new (id promise : Nat) (session : Session) (closesAtOnce : Bool) : Connection where
  id := id
  promise := promise
  session := session
  queue := []
  transport := true
  handles := 0
  closesAtOnce := closesAtOnce
  fault := none
  life := .running

def isReachable (c : Connection) : Bool :=
  c.transport || 0 < c.handles

def isOpen (c : Connection) : Bool :=
  c.life == .running

def mapSession (c : Connection) (f : Session → Session) : Connection :=
  { c with session := f c.session }

def post (c : Connection) (events : List Event) : Logged Connection :=
  ⟨{ c with queue := c.queue ++ events }, events.map fun e => .dealing (.post e)⟩

def send (c : Connection) (events : List Event) : Logged (Connection × Bool) :=
  if c.isOpen then do
    let c ← c.post events
    return (c, true)
  else pure (c, false)

def submit (c : Connection) (envelope : Envelope) : Logged Connection :=
  if c.isOpen then c.post [.dispatch envelope] else ⟨c, envelope.refusal.map .notice⟩

def closeChannel (c : Connection) : Logged Connection :=
  let told := c.closesAtOnce && c.transport && c.session.channel.closes == 0
  let c := c.mapSession fun s => { s with channel := s.channel.close }
  if told then c.post [.closed] else pure c

def record (c : Connection) (fault : Option Fault) : Connection :=
  { c with fault := c.fault.or fault }

def leftovers (c : Connection) : List Action :=
  c.queue.flatMap Event.refusal

def reason (crashed : Bool) : String :=
  if crashed then "user code panicked" else "response dropped without a result"

def drop (c : Connection) (crashed : Bool) : Logged Connection :=
  let abandoned := c.session.abandon (reason crashed)
  ⟨{ c with session := abandoned.value, queue := [], life := .dropped },
    .input (.dropped (reason crashed)) :: abandoned.actions.map .action ++ c.leftovers.map .notice
      ++ [.dealing .shut]⟩

def feed (c : Connection) (source : Nat) (frames : List Frame) (ended : Option Bool) :
    Connection :=
  { c with
    session := c.session.feed source frames ended
    queue := c.queue.map (Event.feed source frames ended) }

def debug? (c : Connection) : Option String :=
  if c.life = .dropped then none
  else some (Text.record "Connection" [("session", c.session.debug)])

def senderDebug : String := "EventSender"

end Connection

end HttpSession
