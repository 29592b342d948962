import HttpSession.Session.Basic

namespace HttpSession.Session

def deadlineOf (s : Session) (clock : Clock) (options : Options) : Option Instant × Session :=
  match options.responseTimeout with
  | some span =>
      if s.timer.isAbsent then (none, s)
      else (some (clock.reading s.readings + span), { s with readings := s.readings + 1 })
  | none => (none, s)

def refuse (s : Session) (sink : Nat) : Traced (Session × Bool) :=
  ⟨(s, false), [.answer sink (.failed Fault.closedSession)]⟩

/-- Takes a request if the session can carry one more. The answer is whether the session may be
used for the next request as well: the last number that a session gives out is taken, and yet the
answer is no. -/
def dispatch (s : Session) (clock : Clock) (options : Options) (request : Request) (sink : Nat) :
    Traced (Session × Bool) :=
  match s.phase with
  | .established w t =>
      if s.dispatched < s.ceiling && !t.isClosing then
        let seq := s.dispatched + 1
        let (deadline, s) := s.deadlineOf clock options
        let t := t.register seq sink options.maxLength deadline
        let w := w.enqueue ⟨seq, request.head, request.body, options.writeTimeout⟩
        let s := { s with dispatched := seq }
        do
          Traced.perform [.enroll seq sink]
          if s.ceiling ≤ seq then
            let t ← t.closeAfterDrain
            return ({ s with phase := .established w t }.deactivate, false)
          else return ({ s with phase := .established w t }, true)
      else s.refuse sink
  | _ => s.refuse sink

end HttpSession.Session
