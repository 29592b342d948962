import HttpSession.Action
import HttpSession.Gathered

namespace HttpSession

inductive Binding where
  | ordered
  | byStream
  deriving DecidableEq, Repr

def Binding.label : Binding → String
  | .ordered => "Http1"
  | .byStream => "Http2"

structure Pending where
  seq : Nat
  sink : Nat
  head : Option ResponseHead
  body : Gathered
  trailers : Option Fields
  maxLength : Nat
  deadline : Option Instant
  deriving DecidableEq, Repr

namespace Pending

def isDue (p : Pending) (now : Instant) : Bool :=
  match p.deadline with
  | some deadline => deadline ≤ now
  | none => false

def fail (p : Pending) (fault : Fault) : Action :=
  .answer p.sink (.failed fault)

def exceeds (p : Pending) (octets : Octets) : Bool :=
  p.maxLength != 0 && p.maxLength < p.body.size + octets.length

end Pending

/-- A request that the tracker no longer waits for. The writer stops it, and with `reset` it also
tells the peer. -/
structure Abandoned where
  seq : Nat
  reset : Bool
  deriving DecidableEq, Repr

/-- The responses still awaited, by ascending number of their requests. -/
structure Tracker where
  binding : Binding
  pending : List Pending
  draining : Bool
  desynced : Bool
  abandoned : List Abandoned
  deriving DecidableEq, Repr

inductive Route where
  | to (seq : Nat)
  | nowhere
  | wrong (fault : Fault)
  deriving DecidableEq, Repr

namespace Tracker

def new (binding : Binding) : Tracker := ⟨binding, [], false, false, []⟩

def find? (t : Tracker) (seq : Nat) : Option Pending :=
  t.pending.find? (·.seq == seq)

def hasOutstanding (t : Tracker) : Bool := !t.pending.isEmpty

def isClosing (t : Tracker) : Bool := t.desynced

def insertSorted (p : Pending) : List Pending → List Pending
  | [] => [p]
  | q :: rest => if p.seq < q.seq then p :: q :: rest else q :: insertSorted p rest

def register (t : Tracker) (seq sink : Nat) (maxLength : Nat) (deadline : Option Instant) :
    Tracker :=
  { t with pending := insertSorted ⟨seq, sink, none, Gathered.empty, none, maxLength, deadline⟩ t.pending }

def update (t : Tracker) (seq : Nat) (f : Pending → Pending) : Tracker :=
  { t with pending := t.pending.map fun p => if p.seq == seq then f p else p }

def erase (t : Tracker) (seq : Nat) : Tracker :=
  { t with pending := t.pending.filter (·.seq != seq) }

def isCanceled (t : Tracker) (gone : Nat → Bool) (seq : Nat) : Bool :=
  match t.find? seq with
  | some p => gone p.sink
  | none => true

def closeIfDrained (t : Tracker) : List Action :=
  if t.draining && t.pending.isEmpty then [.call .close] else []

def settle (t : Tracker) (seq : Nat) (reply : Reply) : Traced Tracker :=
  let rest := t.erase seq
  let answers := (t.find? seq).toList.map fun p => Action.answer p.sink reply
  ⟨rest, answers ++ rest.closeIfDrained⟩

/-- An ordered pipeline that lost a response can no longer tell whose octets come next: all that is
awaited fails and the connection ends. -/
def desync (t : Tracker) : Traced Tracker :=
  if t.desynced then ⟨t, []⟩
  else
    ⟨{ t with
        desynced := true
        pending := []
        abandoned := t.abandoned ++ t.pending.map fun p => Abandoned.mk p.seq false },
      t.pending.map (·.fail Fault.closedSession) ++ [.call .close]⟩

def afterAbandon (t : Tracker) (seqs : List Nat) : Traced Tracker :=
  match t.binding with
  | .ordered =>
      { t with abandoned := t.abandoned ++ seqs.map fun seq => Abandoned.mk seq false }.desync
  | .byStream =>
      ⟨{ t with abandoned := t.abandoned ++ seqs.map fun seq => Abandoned.mk seq true }, t.closeIfDrained⟩

def abandon (t : Tracker) (seq : Nat) (fault : Fault) : Traced Tracker :=
  match t.find? seq with
  | none => ⟨t, []⟩
  | some p => do
      Traced.perform [p.fail fault]
      (t.erase seq).afterAbandon [seq]

def failAll (t : Tracker) (fault : Fault) : Traced Tracker :=
  ⟨{ t with pending := [] }, t.pending.map (·.fail fault)⟩

def fail (t : Tracker) (seq : Nat) (fault : Fault) : Traced Tracker :=
  match t.binding with
  | .ordered => t.abandon seq fault
  | .byStream => t.settle seq (.failed fault)

def forget (t : Tracker) (seq : Nat) : Traced Tracker :=
  t.settle seq (.failed Fault.canceled)

def closeAfterDrain (t : Tracker) : Traced Tracker :=
  let t := { t with draining := true }
  ⟨t, t.closeIfDrained⟩

def route (t : Tracker) (stream : Option StreamId) : Route :=
  match t.binding with
  | .ordered =>
      match t.pending with
      | [] => .wrong (Fault.violation "received a response with no outstanding request")
      | p :: _ => .to p.seq
  | .byStream =>
      match stream with
      | none => .wrong (Fault.violation "http2 response part without a stream id")
      | some id =>
          match seqOf? id with
          | none => .wrong (Fault.violation "response on a server-initiated stream")
          | some seq => if (t.find? seq).isSome then .to seq else .nowhere

structure Received where
  tracker : Tracker
  fault : Option Fault
  deriving DecidableEq, Repr

def accepted (t : Traced Tracker) : Traced Received :=
  ⟨⟨t.value, none⟩, t.actions⟩

def rejected (t : Tracker) (text : String) : Traced Received :=
  ⟨⟨t, some (Fault.violation text)⟩, []⟩

def receivePart (t : Tracker) (p : Pending) (part : Part) : Traced Received :=
  match part, p.head with
  | .head h, none =>
      if h.isInterim then accepted (pure t)
      else accepted (pure (t.update p.seq fun p => { p with head := some h }))
  | .head h, some _ =>
      if h.isInterim then accepted (pure t)
      else t.rejected "received a second response head"
  | .data _, none => t.rejected "received response data before the head"
  | .data octets, some _ =>
      if p.exceeds octets then accepted (t.abandon p.seq Fault.tooLarge)
      else accepted (pure (t.update p.seq fun p => { p with body := p.body.add octets }))
  | .trailers _, none => t.rejected "received response trailers before the head"
  | .trailers fields, some _ =>
      accepted (pure (t.update p.seq fun p => { p with trailers := some fields }))
  | .finish, none => t.rejected "response ended before the head"
  | .finish, some h => accepted (t.settle p.seq (.complete ⟨h, p.body.toOctets, p.trailers⟩))
  | .reset reason, _ =>
      let stopped := { t with abandoned := t.abandoned ++ [Abandoned.mk p.seq false] }
      accepted (stopped.settle p.seq (.failed (Fault.ofStream (.reason reason))))

def receive (t : Tracker) (stream : Option StreamId) (part : Part) : Traced Received :=
  if t.desynced then accepted (pure t)
  else
    match t.route stream with
    | .wrong fault => ⟨⟨t, some fault⟩, []⟩
    | .nowhere => accepted (pure t)
    | .to seq =>
        match t.find? seq with
        | none => accepted (pure t)
        | some p => t.receivePart p part

def nextDeadline (t : Tracker) : Option Instant :=
  (t.pending.filterMap (·.deadline)).min?

def expire (t : Tracker) (now : Instant) : Traced Tracker :=
  let due := t.pending.filter (·.isDue now)
  if due.isEmpty then ⟨t, []⟩
  else do
    Traced.perform (due.map (·.fail Fault.responseTimeout))
    { t with pending := t.pending.filter fun p => !p.isDue now }.afterAbandon (due.map Pending.seq)

def debug (t : Tracker) : String :=
  Text.record "PendingResponses"
    [("binding", t.binding.label), ("pending", toString t.pending.length),
      ("close_after_drain", Text.boolean t.draining), ("desynced", Text.boolean t.desynced)]

theorem desync_pending_length_le (t : Tracker) : t.desync.value.pending.length ≤ t.pending.length := by
  unfold desync
  split <;> simp

theorem afterAbandon_pending_length_le (t : Tracker) (seqs : List Nat) :
    (t.afterAbandon seqs).value.pending.length ≤ t.pending.length := by
  unfold afterAbandon
  split
  · exact desync_pending_length_le _
  · simp

theorem exists_isDue_of_nextDeadline {t : Tracker} {next now : Instant}
    (h : t.nextDeadline = some next) (hle : next ≤ now) : ∃ p ∈ t.pending, p.isDue now := by
  have hmem := List.min?_mem h
  obtain ⟨p, hp, hd⟩ := List.mem_filterMap.1 hmem
  exact ⟨p, hp, by simp [Pending.isDue, hd, hle]⟩

theorem expire_pending_length_lt {t : Tracker} {next now : Instant}
    (h : t.nextDeadline = some next) (hle : next ≤ now) :
    (t.expire now).value.pending.length < t.pending.length := by
  obtain ⟨p, hp, hdue⟩ := exists_isDue_of_nextDeadline h hle
  have hne : (t.pending.filter (·.isDue now)).isEmpty = false := by
    rw [List.isEmpty_eq_false_iff_exists_mem]
    exact ⟨p, List.mem_filter.2 ⟨hp, hdue⟩⟩
  have hlt : (t.pending.filter fun p => !p.isDue now).length < t.pending.length := by
    rw [List.length_filter_lt_length_iff_exists]
    exact ⟨p, hp, by simp [hdue]⟩
  simp only [expire, hne, Bool.false_eq_true, if_false, Traced.value_bind]
  exact Nat.lt_of_le_of_lt (afterAbandon_pending_length_le _ _) hlt

end Tracker

end HttpSession
