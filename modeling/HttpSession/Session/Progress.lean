import HttpSession.Session.Negotiation

namespace HttpSession

inductive AlarmCheck where
  | quiet (alarm : Option Sleep)
  | due (deadline : Instant)
  | broken (text : String)
  deriving DecidableEq, Repr

namespace AlarmCheck

def of (timer : Timer) (clock : Clock) (alarm : Option Sleep) (t : Tracker) : AlarmCheck :=
  match t.nextDeadline with
  | none => .quiet none
  | some deadline =>
      match timer.reset alarm deadline with
      | .error text => .broken text
      | .ok s => if s.isOver clock then .due deadline else .quiet (some s)

def consulted (timer : Timer) (clock : Clock) (alarm : Option Sleep) (t : Tracker) : List (Sleep × Bool) :=
  let asked := t.nextDeadline.bind fun deadline => (timer.reset alarm deadline).toOption
  asked.toList.map fun s => (s, s.isOver clock)

theorem nextDeadline_of_due {timer : Timer} {clock : Clock} {alarm : Option Sleep} {t : Tracker}
    {deadline : Instant} (h : of timer clock alarm t = .due deadline) :
    t.nextDeadline = some deadline := by
  unfold of at h
  split at h
  · simp at h
  · rename_i next hn
    split at h
    · simp at h
    · split at h
      · rw [hn]; simpa using h
      · simp at h

end AlarmCheck

structure TimerLoop where
  tracker : Tracker
  alarm : Option Sleep
  readings : Nat
  crash : Option String
  consulted : List (Sleep × Bool)
  deriving DecidableEq, Repr

namespace TimerLoop

def check (timer : Timer) (clock : Clock) (v : TimerLoop) : AlarmCheck :=
  .of timer clock v.alarm v.tracker

def consult (timer : Timer) (clock : Clock) (v : TimerLoop) : TimerLoop :=
  { v with consulted := v.consulted ++ AlarmCheck.consulted timer clock v.alarm v.tracker }

def expire (clock : Clock) (deadline : Instant) (v : TimerLoop) : Traced TimerLoop := do
  let expired ← v.tracker.expire (max (clock.reading v.readings) deadline)
  return { v with tracker := expired, alarm := none, readings := v.readings + 1 }

def run (timer : Timer) (clock : Clock) (v : TimerLoop) : Traced TimerLoop :=
  match _h : v.check timer clock with
  | .quiet alarm => pure { v.consult timer clock with alarm := alarm }
  | .broken text => pure { v.consult timer clock with crash := some text }
  | .due deadline => do
      let expired := (v.consult timer clock).expire clock deadline
      Traced.perform expired.actions
      run timer clock expired.value
termination_by v.tracker.pending.length
decreasing_by
  exact Tracker.expire_pending_length_lt (AlarmCheck.nextDeadline_of_due ‹_›) (Nat.le_max_right ..)

@[simp] theorem consult_tracker (timer : Timer) (clock : Clock) (v : TimerLoop) :
    (v.consult timer clock).tracker = v.tracker := rfl

@[simp] theorem consult_readings (timer : Timer) (clock : Clock) (v : TimerLoop) :
    (v.consult timer clock).readings = v.readings := rfl

@[simp] theorem expire_tracker (clock : Clock) (deadline : Instant) (v : TimerLoop) :
    (v.expire clock deadline).value.tracker
      = (v.tracker.expire (max (clock.reading v.readings) deadline)).value := rfl

@[simp] theorem expire_actions (clock : Clock) (deadline : Instant) (v : TimerLoop) :
    (v.expire clock deadline).actions
      = (v.tracker.expire (max (clock.reading v.readings) deadline)).actions := List.append_nil _

variable {timer : Timer} {clock : Clock} {v : TimerLoop}

theorem run_quiet {later : Option Sleep} (h : v.check timer clock = .quiet later) :
    v.run timer clock = pure { v.consult timer clock with alarm := later } := by
  rw [run]
  split <;> simp_all

theorem run_broken {text : String} (h : v.check timer clock = .broken text) :
    v.run timer clock = pure { v.consult timer clock with crash := some text } := by
  rw [run]
  split <;> simp_all

theorem run_due {deadline : Instant} (h : v.check timer clock = .due deadline) :
    v.run timer clock = (do
      let expired ← (v.consult timer clock).expire clock deadline
      expired.run timer clock) := by
  rw [run]
  split
  · simp_all
  · simp_all
  · rename_i due hdue
    obtain rfl : due = deadline := by simpa [hdue] using h
    rfl

end TimerLoop

namespace Writer

def abandonAll (w : Writer) : List Abandoned → Writer × List Action
  | [] => (w, [])
  | a :: rest =>
      let stopped := w.abandon a.seq a.reset
      let others := abandonAll stopped.1 rest
      (others.1, stopped.2 ++ others.2)

theorem abandonAll_load_le (w : Writer) (abandoned : List Abandoned) :
    (w.abandonAll abandoned).1.load ≤ w.load := by
  induction abandoned generalizing w with
  | nil => exact Nat.le_refl _
  | cons a rest ih => exact Nat.le_trans (ih _) (abandon_load_le w a.seq a.reset)

end Writer

structure Written where
  writer : Writer
  tracker : Tracker
  crash : Option String
  deriving DecidableEq, Repr

def Written.of (clock : Clock) (gone : Nat → Bool) (w : Writer) (t : Tracker) : Traced Written :=
  let stopped := w.abandonAll t.abandoned
  let rest := { t with abandoned := [] }
  let round := Writer.advance clock (rest.isCanceled gone) stopped.1
  let actions := stopped.2 ++ round.actions
  match _h : round.standing with
  | .unwritten (.failed seq fault) => do
      Traced.perform actions
      let left ← rest.fail seq fault
      of clock gone round.writer left
  | .unwritten (.canceled seq) => do
      Traced.perform actions
      let left ← rest.forget seq
      of clock gone round.writer left
  | .crashed text => ⟨⟨round.writer, rest, some text⟩, actions⟩
  | .empty | .pending => ⟨⟨round.writer, rest, none⟩, actions⟩
termination_by w.load
decreasing_by
  all_goals
    exact Nat.lt_of_lt_of_le (Writer.advance_load_lt clock _ _ _ ‹_›)
      (Writer.abandonAll_load_le w t.abandoned)

namespace Written

variable {clock : Clock} {gone : Nat → Bool} {w : Writer} {t : Tracker}

def round (clock : Clock) (gone : Nat → Bool) (w : Writer) (t : Tracker) : Writer.Round :=
  let stopped := w.abandonAll t.abandoned
  (Writer.advance clock (Tracker.isCanceled { t with abandoned := [] } gone) stopped.1).after stopped.2 []

theorem of_induction (clock : Clock) (gone : Nat → Bool) {motive : Writer → Tracker → Prop}
    (failed : ∀ w t seq fault, (round clock gone w t).standing = .unwritten (.failed seq fault) →
      (∀ left, motive (round clock gone w t).writer left) → motive w t)
    (canceled : ∀ w t seq, (round clock gone w t).standing = .unwritten (.canceled seq) →
      (∀ left, motive (round clock gone w t).writer left) → motive w t)
    (crashed : ∀ w t text, (round clock gone w t).standing = .crashed text → motive w t)
    (written : ∀ w t, (round clock gone w t).standing = .empty
      ∨ (round clock gone w t).standing = .pending → motive w t)
    (w : Writer) (t : Tracker) : motive w t := by
  induction w, t using Written.of.induct clock gone with
  | case1 w t _ _ _ seq fault hs ih => exact failed w t seq fault hs ih
  | case2 w t _ _ _ seq hs ih => exact canceled w t seq hs ih
  | case3 w t _ _ _ text hs => exact crashed w t text hs
  | case4 w t _ _ _ hs => exact written w t (.inl hs)
  | case5 w t _ _ _ hs => exact written w t (.inr hs)

theorem of_failed {seq : Nat} {fault : Fault}
    (h : (round clock gone w t).standing = .unwritten (.failed seq fault)) :
    Written.of clock gone w t = (do
      Traced.perform (round clock gone w t).actions
      let left ← Tracker.fail { t with abandoned := [] } seq fault
      Written.of clock gone (round clock gone w t).writer left) := by
  rw [Written.of]
  split <;> simp_all [round, Writer.Round.after]

theorem of_canceled {seq : Nat}
    (h : (round clock gone w t).standing = .unwritten (.canceled seq)) :
    Written.of clock gone w t = (do
      Traced.perform (round clock gone w t).actions
      let left ← Tracker.forget { t with abandoned := [] } seq
      Written.of clock gone (round clock gone w t).writer left) := by
  rw [Written.of]
  split <;> simp_all [round, Writer.Round.after]

theorem of_crashed {text : String} (h : (round clock gone w t).standing = .crashed text) :
    Written.of clock gone w t
      = ⟨⟨(round clock gone w t).writer, { t with abandoned := [] }, some text⟩,
        (round clock gone w t).actions⟩ := by
  rw [Written.of]
  split <;> simp_all [round, Writer.Round.after]

theorem of_written (h : (round clock gone w t).standing = .empty
      ∨ (round clock gone w t).standing = .pending) :
    Written.of clock gone w t
      = ⟨⟨(round clock gone w t).writer, { t with abandoned := [] }, none⟩,
        (round clock gone w t).actions⟩ := by
  rw [Written.of]
  split <;> simp_all [round, Writer.Round.after]

end Written

namespace Session

def timerLoop (s : Session) (t : Tracker) : TimerLoop := ⟨t, s.alarm, s.readings, none, []⟩

@[simp] theorem timerLoop_tracker (s : Session) (t : Tracker) : (s.timerLoop t).tracker = t := rfl

@[simp] theorem timerLoop_alarm (s : Session) (t : Tracker) : (s.timerLoop t).alarm = s.alarm := rfl

@[simp] theorem timerLoop_crash (s : Session) (t : Tracker) : (s.timerLoop t).crash = none := rfl

def keepTime (s : Session) (clock : Clock) : Traced (Session × Option String) := do
  let s ← if s.negotiation.any (·.isOver clock) then s.onNegotiationTimeout else pure s
  match s.phase with
  | .established w t =>
      let v ← (s.timerLoop t).run s.timer clock
      return ({ s with
        alarm := v.alarm, readings := v.readings, phase := .established w v.tracker }, v.crash)
  | _ => return (s, none)

def write (s : Session) (clock : Clock) (gone : Nat → Bool) :
    Traced (Session × Option String) :=
  match s.phase with
  | .established w t => do
      let done ← Written.of clock gone w t
      return ({ s with phase := .established done.writer done.tracker }, done.crash)
  | _ => pure (s, none)

end Session

end HttpSession
