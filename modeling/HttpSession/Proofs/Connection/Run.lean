import HttpSession.Builder
import HttpSession.Proofs.Connection.Poll

namespace HttpSession

open Happening (ofActions)

def Event.debts : Event → List Debt
  | .dispatch envelope => [.reply envelope.sink, .word envelope.sink]
  | _ => []

def Input.isOuter : Input → Bool
  | .deactivate | .markFallback | .linked _ | .wire _ | .sink _ | .fire => true
  | _ => false

/-- Something that happens to a connection. The transport sends no requests: those come from the
handles, all of which reach the same queue. -/
inductive Occasion where
  | tell (events : List Event) (plain : ∀ e ∈ events, e.debts = [])
  | ask (options : Options) (request : Request)
  | poll (clock : Clock) (gone : Nat → Bool)
  | drop (crashed : Bool)
  | feed (source : Nat) (frames : List Frame) (ended : Option Bool)
  | touch (i : Input) (outer : i.isOuter = true)
  | hold (handles : Nat)
  | cut
  | promise (p : Promise)

/-- A connection with the number of requests that it was sent. Each has a caller of its own. -/
structure Service where
  attempt : Attempt
  asked : Nat

namespace Service

def isOpen (s : Service) : Bool := s.attempt.connection.isOpen

def mapConnection (s : Service) (f : Connection → Connection) : Service :=
  { s with attempt := { s.attempt with connection := f s.attempt.connection } }

def polled (s : Service) (clock : Clock) (gone : Nat → Bool) : Logged (Service × Outcome) := do
  let polled ← s.attempt.poll clock gone
  return ({ s with attempt := polled.1 }, polled.2)

def dropped (s : Service) (crashed : Bool) : Logged Service := do
  let connection ← s.attempt.connection.drop crashed
  return s.mapConnection fun _ => connection

def asks (s : Service) (options : Options) (request : Request) : Logged Service := do
  let connection ← s.attempt.connection.submit ⟨options, request, s.asked⟩
  return { s.mapConnection fun _ => connection with asked := s.asked + 1 }

def told (s : Service) (events : List Event) : Logged Service := do
  let sent ← s.attempt.connection.send events
  return s.mapConnection fun _ => sent.1

def meet (s : Service) : Occasion → Logged Service
  | .tell events _ => s.told events
  | .ask options request => s.asks options request
  | .poll clock gone => do
      let polled ← s.polled clock gone
      return polled.1
  | .drop crashed => s.dropped crashed
  | .feed source frames ended => do
      Logged.note [.input (.feed source frames ended)]
      return s.mapConnection fun c => c.feed source frames ended
  | .touch i _ => do
      Logged.note [.input i]
      return s.mapConnection fun c => c.mapSession fun s => (s.respond i).value
  | .hold handles => pure (s.mapConnection fun c => { c with handles := handles })
  | .cut => pure (s.mapConnection fun c => { c with transport := false })
  | .promise p => pure { s with attempt := { s.attempt with promise := p } }

def run (s : Service) : List Occasion → Logged Service
  | [] => pure s
  | o :: rest => do
      let next ← s.meet o
      next.run rest

theorem polled_log (s : Service) (clock : Clock) (gone : Nat → Bool) :
    (s.polled clock gone).log = (s.attempt.poll clock gone).log := List.append_nil _

theorem meet_poll (s : Service) (clock : Clock) (gone : Nat → Bool) :
    s.meet (.poll clock gone) = ⟨(s.polled clock gone).value.1, (s.polled clock gone).log⟩ :=
  congrArg (Logged.mk _) (List.append_nil _)

theorem polled_polls (s : Service) (clock : Clock) (gone : Nat → Bool) :
    s.attempt.Polls clock gone (s.polled clock gone).log
      ((s.polled clock gone).value.1.attempt, (s.polled clock gone).value.2) := by
  rw [polled_log]
  exact s.attempt.poll_polls clock gone

theorem meet_inputs (s : Service) (o : Occasion) :
    (s.meet o).inputs = match o with
      | .poll clock gone => (s.polled clock gone).inputs
      | .drop crashed => [.dropped (Connection.reason crashed)]
      | .feed source frames ended => [.feed source frames ended]
      | .touch i _ => [i]
      | _ => [] := by
  cases o with
  | poll clock gone => rw [meet_poll]; rfl
  | drop crashed => simp [meet, dropped, Connection.drop, Logged.inputs]
  | feed | touch => simp [meet, Logged.inputs]
  | tell events plain =>
      simp only [meet, told, Connection.send]
      split <;> simp [Connection.post, Logged.inputs]
  | ask options request =>
      simp only [meet, asks, Connection.submit]
      split <;> simp [Connection.post, Logged.inputs]
  | hold | cut | promise => rfl

theorem run_append (s : Service) (xs ys : List Occasion) :
    s.run (xs ++ ys) = s.run xs >>= fun next => next.run ys := by
  induction xs generalizing s with
  | nil => rfl
  | cons o rest ih =>
      have hrest := ih (s.meet o).value
      simp only [List.cons_append, run, bind] at hrest ⊢
      rw [hrest]
      simp

theorem run_concat (s : Service) (occasions : List Occasion) (o : Occasion) :
    s.run (occasions ++ [o]) = s.run occasions >>= fun next => next.meet o := by
  rw [run_append]
  simp [run, bind, pure]

end Service

end HttpSession
