import HttpSession.Connection

namespace HttpSession

structure Attempt where
  connection : Connection
  promise : Promise
  deriving DecidableEq, Repr

inductive Outcome where
  | pending (woken : Bool)
  | ready (fault : Option Fault)
  | crashed (text : String)
  deriving DecidableEq, Repr

namespace Attempt

def react (a : Attempt) (x : Action) : Logged Attempt := do
  Logged.note [.action x]
  match x with
  | .call .close =>
      let connection ← a.connection.closeChannel
      return { a with connection := connection }
  | .offer =>
      return {
        connection :=
          if a.promise.isWanted then
            { a.connection with handles := a.connection.handles + 1 }
          else a.connection
        promise := a.promise.settle (.handle a.connection.id) }
  | .refuse fault => return { a with promise := a.promise.settle (.failed fault) }
  | _ => return a

def reacts (a : Attempt) : List Action → Logged Attempt
  | [] => pure a
  | x :: rest => do
      let a ← a.react x
      a.reacts rest

def ask {α : Type} (a : Attempt) (i : Input) (f : Session → Traced (Session × α)) :
    Logged (Attempt × α) := do
  let asked := f a.connection.session
  Logged.note [.input i]
  let a ← reacts { a with connection := { a.connection with session := asked.value.1 } } asked.actions
  return (a, asked.value.2)

def hear (a : Attempt) (i : Input) : Logged Attempt := do
  let heard ← a.ask i fun s => do
    let s ← s.respond i
    return (s, ())
  return heard.1

def judged (a : Attempt) (i : Input) (f : Session → Traced (Session × Option Fault)) :
    Logged Attempt := do
  let judged ← a.ask i f
  return { judged.1 with connection := judged.1.connection.record judged.2 }

def close (a : Attempt) : Logged Attempt := a.hear (.closed a.promise)

def handle (a : Attempt) (clock : Clock) : Event → Logged Attempt
  | .active => a.hear .activate
  | .negotiated protocol => a.hear (.negotiated a.promise a.connection.isReachable protocol)
  | .negotiationFailed fault => a.hear (.negotiationFailed fault)
  | .dispatch ⟨options, request, sink⟩ => do
      let taken ← a.ask (.dispatch clock options request sink) fun s => s.dispatch clock options request sink
      Logged.note [.notice (.accept sink taken.2)]
      return taken.1
  | .response stream part => a.judged (.response stream part) fun s => s.onResponse stream part
  | .message m => a.judged (.message m) fun s => s.onMessage m
  | .upgradeFailed => a.hear .markFallback
  | .error e => a.judged (.transportError e) fun s => s.onTransportError e
  | .closed => a.close

inductive Intake where
  | emptied
  | interrupted
  | ended
  deriving DecidableEq, Repr

def intake (clock : Clock) : Nat → Attempt → Logged (Attempt × Intake)
  | 0, a => do
      Logged.note [.dealing .wake]
      return (a, .interrupted)
  | n + 1, a =>
      match a.connection.queue with
      | [] =>
          if a.connection.isReachable then do
            Logged.note [.dealing .rest]
            return (a, .emptied)
          else do
            let a ← a.close
            return (a, .ended)
      | e :: rest => do
          Logged.note [.dealing (.take e)]
          let a ← handle { a with connection := { a.connection with queue := rest } } clock e
          if e = .closed then return (a, .ended) else intake clock n a

def eventsPerPoll : Nat := 16

def finish (a : Attempt) : Logged (Attempt × Outcome) :=
  let c := a.connection
  ⟨({ a with connection := { c with queue := [], fault := none, life := .finished } },
    .ready c.fault), c.leftovers.map .notice ++ [.dealing .shut]⟩

def progress (a : Attempt) (clock : Clock) (gone : Nat → Bool) :
    Logged (Attempt × Option String) := do
  let timed ← a.ask (.keepTime clock) fun s => s.keepTime clock
  match timed.2 with
  | some text => return (timed.1, some text)
  | none =>
      let written ← timed.1.ask (.write clock gone) fun s => s.write clock gone
      match written.2 with
      | some text => return (written.1, some text)
      | none =>
          let published ← written.1.hear .publish
          return (published, none)

def poll (a : Attempt) (clock : Clock) (gone : Nat → Bool) : Logged (Attempt × Outcome) :=
  if a.connection.isOpen then do
    Logged.note [.dealing .poll]
    let taken ← intake clock eventsPerPoll a
    if taken.2 = .ended then taken.1.finish
    else
      let done ← taken.1.progress clock gone
      match done.2 with
      | some text => return (done.1, .crashed text)
      | none =>
          return (done.1,
            .pending (taken.2 == .interrupted || !done.1.connection.queue.isEmpty))
  else pure (a, .ready none)

end Attempt

end HttpSession
