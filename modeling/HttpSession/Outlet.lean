import HttpSession.Action

namespace HttpSession

/-- How a peer will answer the sends to come: the next ones in runs of equal answers, all later
ones alike. -/
structure Plan (ε : Type) where
  runs : List (Nat × Option ε)
  later : Option ε
  deriving DecidableEq, Repr

namespace Plan

variable {ε : Type}

def smooth : Plan ε := ⟨[], none⟩

def failAfter (successes : Nat) (e : ε) : Plan ε :=
  ⟨[(successes, none)], some e⟩

def pop (later : Option ε) : List (Nat × Option ε) → Option ε × List (Nat × Option ε)
  | [] => (later, [])
  | (0, _) :: runs => pop later runs
  | (n + 1, answer) :: runs => (answer, (n, answer) :: runs)

def next (plan : Plan ε) : Option ε × Plan ε :=
  let popped := pop plan.later plan.runs
  (popped.1, { plan with runs := popped.2 })

end Plan

/-- The octet stream under HTTP/1.1. What it answers once it was shut down, its peer has planned apart. -/
structure Wire where
  plan : Plan IoError
  afterShutdown : Plan IoError
  deriving DecidableEq, Repr

namespace Wire

def fresh : Wire := ⟨Plan.smooth, Plan.smooth⟩

def write (wire : Wire) : Option IoError × Wire :=
  (wire.plan.next.1, { wire with plan := wire.plan.next.2 })

def shutdown (wire : Wire) : Wire := { wire with plan := wire.afterShutdown }

end Wire

structure FrameSink where
  plan : Plan StreamFault
  deriving DecidableEq, Repr

namespace FrameSink

def fresh : FrameSink := ⟨Plan.smooth⟩

def send (sink : FrameSink) : Option StreamFault × FrameSink :=
  (sink.plan.next.1, ⟨sink.plan.next.2⟩)

end FrameSink

end HttpSession
