import HttpSession.Upload

namespace HttpSession

structure Writer where
  encoder : Encoder
  queue : List Upload
  active : List InFlight
  multiplex : Bool
  timer : Timer
  deriving DecidableEq, Repr

inductive Unwritten where
  | canceled (seq : Nat)
  | failed (seq : Nat) (fault : Fault)
  deriving DecidableEq, Repr

inductive Standing where
  | empty
  | pending
  | unwritten (u : Unwritten)
  | crashed (text : String)
  deriving DecidableEq, Repr

namespace Writer

def new (encoder : Encoder) (timer : Timer) (multiplex : Bool) : Writer :=
  ⟨encoder, [], [], multiplex, timer⟩

def enqueue (w : Writer) (u : Upload) : Writer :=
  { w with queue := w.queue ++ [u] }

def isIdle (w : Writer) : Bool :=
  w.active.isEmpty && w.queue.isEmpty

def load (w : Writer) : Nat :=
  w.queue.length + w.active.length

structure BodyPoll where
  flight : InFlight
  encoder : Encoder
  deriving DecidableEq, Repr

structure Round where
  writer : Writer
  actions : List Action
  polls : List BodyPoll
  standing : Standing
  deriving DecidableEq, Repr

def Round.after (actions : List Action) (polls : List BodyPoll) (r : Round) : Round :=
  { r with actions := actions ++ r.actions, polls := polls ++ r.polls }

def abandon (w : Writer) (seq : Nat) (reset : Bool) : Writer × List Action :=
  if w.queue.any (·.seq == seq) then
    ({ w with queue := w.queue.eraseP (·.seq == seq) }, [])
  else
    let w := { w with active := w.active.eraseP (·.seq == seq) }
    if reset then
      let given := w.encoder.put seq .reset
      ({ w with encoder := given.encoder }, given.actions seq .reset)
    else (w, [])

def sleepOf (w : Writer) (clock : Clock) (u : Upload) : Option (Except String Sleep) :=
  if w.timer.isAbsent then none else u.limit.map (w.timer.sleep clock)

def timeoutOf (w : Writer) (clock : Clock) (u : Upload) : Option Sleep :=
  (w.sleepOf clock u).bind Except.toOption

def mayStart (w : Writer) : Bool :=
  w.multiplex || w.active.isEmpty

def started (w : Writer) (clock : Clock) (u : Upload) : List InFlight :=
  if u.body.isEnd then [] else [⟨u.seq, u.body, w.timeoutOf clock u⟩]

structure Launch where
  writer : Writer
  actions : List Action
  unwritten : Option Unwritten
  deriving DecidableEq, Repr

def Launch.after (actions : List Action) (l : Launch) : Launch :=
  { l with actions := actions ++ l.actions }

def launchFrom (clock : Clock) (canceled : Nat → Bool) (w : Writer) : List Upload → Launch
  | [] => ⟨{ w with queue := [] }, [], none⟩
  | u :: rest =>
      if !w.mayStart then ⟨{ w with queue := u :: rest }, [], none⟩
      else if canceled u.seq then ⟨{ w with queue := rest }, [], some (.canceled u.seq)⟩
      else
        let piece := Piece.headers u.head u.body.isEnd
        let sent := w.encoder.put u.seq piece
        match sent.fault with
        | some fault =>
            let given := sent.encoder.put u.seq .reset
            ⟨{ w with encoder := given.encoder, queue := rest },
              sent.actions u.seq piece ++ given.actions u.seq .reset, some (.failed u.seq fault)⟩
        | none =>
            (launchFrom clock canceled
              { w with encoder := sent.encoder, active := w.active ++ w.started clock u }
              rest).after (sent.actions u.seq piece)

def launch (w : Writer) (clock : Clock) (canceled : Nat → Bool) : Launch :=
  launchFrom clock canceled w w.queue

structure Pass where
  encoder : Encoder
  actions : List Action
  polls : List BodyPoll
  left : List InFlight
  finished : Bool
  stop : Option Standing
  deriving DecidableEq, Repr

def Pass.after (actions : List Action) (poll : BodyPoll) (p : Pass) : Pass :=
  { p with actions := actions ++ p.actions, polls := poll :: p.polls }

def Pass.keep (f : InFlight) (p : Pass) : Pass :=
  { p with left := f :: p.left }

def Pass.drop (p : Pass) : Pass :=
  { p with finished := true }

def pass (clock : Clock) (encoder : Encoder) : List InFlight → Pass
  | [] => ⟨encoder, [], [], [], false, none⟩
  | f :: rest =>
      let t := f.poll clock encoder
      Pass.after t.actions ⟨f, encoder⟩ <|
        match t.stage with
        | .waiting body => (pass clock t.encoder rest).keep { f with body := body }
        | .done => (pass clock t.encoder rest).drop
        | .failed fault => ⟨t.encoder, [], [], rest, true, some (.unwritten (.failed f.seq fault))⟩
        | .crashed text body =>
            ⟨t.encoder, [], [], { f with body := body } :: rest, false, some (.crashed text)⟩

section

variable {clock : Clock} {canceled : Nat → Bool} {w : Writer} {u : Upload} {rest : List Upload}

theorem launchFrom_full (h : w.mayStart = false) :
    launchFrom clock canceled w (u :: rest) = ⟨{ w with queue := u :: rest }, [], none⟩ := by
  simp [launchFrom, h]

theorem launchFrom_canceled (h : w.mayStart = true) (hc : canceled u.seq = true) :
    launchFrom clock canceled w (u :: rest)
      = ⟨{ w with queue := rest }, [], some (.canceled u.seq)⟩ := by
  simp [launchFrom, h, hc]

theorem launchFrom_failed (h : w.mayStart = true) (hc : canceled u.seq = false) {sent : Emission}
    (put : w.encoder.put u.seq (.headers u.head u.body.isEnd) = sent) {fault : Fault}
    (hf : sent.fault = some fault) :
    launchFrom clock canceled w (u :: rest)
      = ⟨{ w with encoder := (sent.encoder.put u.seq .reset).encoder, queue := rest },
        sent.actions u.seq (.headers u.head u.body.isEnd)
          ++ (sent.encoder.put u.seq .reset).actions u.seq .reset,
        some (.failed u.seq fault)⟩ := by
  simp [launchFrom, h, hc, put, hf]

theorem launchFrom_sent (h : w.mayStart = true) (hc : canceled u.seq = false) {sent : Emission}
    (put : w.encoder.put u.seq (.headers u.head u.body.isEnd) = sent) (hf : sent.fault = none) :
    launchFrom clock canceled w (u :: rest)
      = (launchFrom clock canceled
          { w with encoder := sent.encoder, active := w.active ++ w.started clock u } rest).after
        (sent.actions u.seq (.headers u.head u.body.isEnd)) := by
  simp [launchFrom, h, hc, put, hf]

variable {encoder : Encoder} {f : InFlight} {behind : List InFlight} {t : Transfer}

theorem pass_waiting (poll : f.poll clock encoder = t) {body : Body} (hs : t.stage = .waiting body) :
    pass clock encoder (f :: behind)
      = ((pass clock t.encoder behind).keep { f with body := body }).after t.actions ⟨f, encoder⟩ := by
  simp [pass, poll, hs]

theorem pass_done (poll : f.poll clock encoder = t) (hs : t.stage = .done) :
    pass clock encoder (f :: behind)
      = (pass clock t.encoder behind).drop.after t.actions ⟨f, encoder⟩ := by
  simp [pass, poll, hs]

theorem pass_failed (poll : f.poll clock encoder = t) {fault : Fault} (hs : t.stage = .failed fault) :
    pass clock encoder (f :: behind)
      = ⟨t.encoder, t.actions, [⟨f, encoder⟩], behind, true, some (.unwritten (.failed f.seq fault))⟩ := by
  simp [pass, Pass.after, poll, hs]

theorem pass_crashed (poll : f.poll clock encoder = t) {text : String} {body : Body}
    (hs : t.stage = .crashed text body) :
    pass clock encoder (f :: behind)
      = ⟨t.encoder, t.actions, [⟨f, encoder⟩], { f with body := body } :: behind, false,
        some (.crashed text)⟩ := by
  simp [pass, Pass.after, poll, hs]

end

theorem started_length_le (w : Writer) (clock : Clock) (u : Upload) :
    (w.started clock u).length ≤ 1 := by
  unfold started
  split
  · exact Nat.zero_le 1
  · exact Nat.le_refl 1

theorem launchFrom_load_le (clock : Clock) (canceled : Nat → Bool) (w : Writer)
    (queue : List Upload) :
    (launchFrom clock canceled w queue).writer.load ≤ queue.length + w.active.length := by
  induction queue generalizing w with
  | nil => exact Nat.le_refl _
  | cons u rest ih =>
      have hone := w.started_length_le clock u
      cases hm : w.mayStart with
      | false =>
          rw [launchFrom_full hm]
          exact Nat.le_refl _
      | true =>
          cases hc : canceled u.seq with
          | true =>
              rw [launchFrom_canceled hm hc]
              simp only [load, List.length_cons]
              omega
          | false =>
              cases hf : (w.encoder.put u.seq (.headers u.head u.body.isEnd)).fault with
              | some fault =>
                  rw [launchFrom_failed hm hc rfl hf]
                  simp only [load, List.length_cons]
                  omega
              | none =>
                  rw [launchFrom_sent hm hc rfl hf]
                  refine Nat.le_trans (ih _) ?_
                  simp only [List.length_append, List.length_cons]
                  omega

theorem launchFrom_load_lt (clock : Clock) (canceled : Nat → Bool) (w : Writer)
    (queue : List Upload) (u : Unwritten)
    (h : (launchFrom clock canceled w queue).unwritten = some u) :
    (launchFrom clock canceled w queue).writer.load < queue.length + w.active.length := by
  induction queue generalizing w with
  | nil => simp [launchFrom] at h
  | cons v rest ih =>
      have hone := w.started_length_le clock v
      cases hm : w.mayStart with
      | false => simp [launchFrom_full hm] at h
      | true =>
          cases hc : canceled v.seq with
          | true =>
              rw [launchFrom_canceled hm hc]
              simp only [load, List.length_cons]
              omega
          | false =>
              cases hf : (w.encoder.put v.seq (.headers v.head v.body.isEnd)).fault with
              | some fault =>
                  rw [launchFrom_failed hm hc rfl hf]
                  simp only [load, List.length_cons]
                  omega
              | none =>
                  rw [launchFrom_sent hm hc rfl hf] at h ⊢
                  refine Nat.lt_of_lt_of_le (ih _ h) ?_
                  simp only [List.length_append, List.length_cons]
                  omega

theorem launch_load_le (w : Writer) (clock : Clock) (canceled : Nat → Bool) :
    (w.launch clock canceled).writer.load ≤ w.load :=
  launchFrom_load_le clock canceled w w.queue

theorem launch_load_lt (w : Writer) (clock : Clock) (canceled : Nat → Bool) (u : Unwritten)
    (h : (w.launch clock canceled).unwritten = some u) :
    (w.launch clock canceled).writer.load < w.load :=
  launchFrom_load_lt clock canceled w w.queue u h

theorem pass_left_length_le (clock : Clock) (encoder : Encoder) (active : List InFlight) :
    (pass clock encoder active).left.length ≤ active.length := by
  induction active generalizing encoder with
  | nil => exact Nat.le_refl 0
  | cons f rest ih =>
      cases hs : (f.poll clock encoder).stage with
      | waiting body =>
          rw [pass_waiting rfl hs]
          exact Nat.succ_le_succ (ih _)
      | done =>
          rw [pass_done rfl hs]
          exact Nat.le_succ_of_le (ih _)
      | failed fault =>
          rw [pass_failed rfl hs]
          exact Nat.le_succ _
      | crashed text body =>
          rw [pass_crashed rfl hs]
          exact Nat.le_refl _

theorem pass_left_length_lt (clock : Clock) (encoder : Encoder) (active : List InFlight)
    (h : (pass clock encoder active).finished = true) :
    (pass clock encoder active).left.length < active.length := by
  induction active generalizing encoder with
  | nil => simp [pass] at h
  | cons f rest ih =>
      cases hs : (f.poll clock encoder).stage with
      | waiting body =>
          rw [pass_waiting rfl hs] at h ⊢
          exact Nat.succ_lt_succ (ih _ h)
      | done =>
          rw [pass_done rfl hs]
          exact Nat.lt_succ_of_le (pass_left_length_le _ _ _)
      | failed fault =>
          rw [pass_failed rfl hs]
          exact Nat.lt_succ_self _
      | crashed text body => simp [pass_crashed rfl hs] at h

def advance (clock : Clock) (canceled : Nat → Bool) (w : Writer) : Round :=
  let launched := w.launch clock canceled
  match launched.unwritten with
  | some u => ⟨launched.writer, launched.actions, [], .unwritten u⟩
  | none =>
      if launched.writer.active.isEmpty then ⟨launched.writer, launched.actions, [], .empty⟩
      else
        let passed := pass clock launched.writer.encoder launched.writer.active
        let rest := { launched.writer with encoder := passed.encoder, active := passed.left }
        let actions := launched.actions ++ passed.actions
        match passed.stop with
        | some standing => ⟨rest, actions, passed.polls, standing⟩
        | none =>
            if passed.finished = true then
              (advance clock canceled rest).after actions passed.polls
            else ⟨rest, actions, passed.polls, .pending⟩
termination_by w.load
decreasing_by
  have hle := launch_load_le w clock canceled
  have hlt := pass_left_length_lt clock _ _ ‹_›
  dsimp only [load, launched] at hle hlt ⊢
  omega

section

variable {clock : Clock} {canceled : Nat → Bool} {w : Writer} {l : Launch} {p : Pass}

theorem advance_unwritten (launch : w.launch clock canceled = l) {u : Unwritten}
    (hu : l.unwritten = some u) :
    advance clock canceled w = ⟨l.writer, l.actions, [], .unwritten u⟩ := by
  subst launch
  rw [advance]
  simp only [hu]

theorem advance_empty (launch : w.launch clock canceled = l) (hu : l.unwritten = none)
    (hn : l.writer.active.isEmpty = true) :
    advance clock canceled w = ⟨l.writer, l.actions, [], .empty⟩ := by
  subst launch
  rw [advance]
  simp only [hu, hn, if_true]

theorem advance_stopped (launch : w.launch clock canceled = l) (hu : l.unwritten = none)
    (hn : ¬l.writer.active.isEmpty = true)
    (pass : pass clock l.writer.encoder l.writer.active = p) {standing : Standing}
    (hs : p.stop = some standing) :
    advance clock canceled w
      = ⟨{ l.writer with encoder := p.encoder, active := p.left }, l.actions ++ p.actions, p.polls,
        standing⟩ := by
  subst launch pass
  rw [advance]
  simp only [hu, hn, hs, Bool.false_eq_true, if_false]

theorem advance_again (launch : w.launch clock canceled = l) (hu : l.unwritten = none)
    (hn : ¬l.writer.active.isEmpty = true)
    (pass : pass clock l.writer.encoder l.writer.active = p) (hs : p.stop = none)
    (hf : p.finished = true) :
    advance clock canceled w
      = (advance clock canceled { l.writer with encoder := p.encoder, active := p.left }).after
        (l.actions ++ p.actions) p.polls := by
  subst launch pass
  rw [advance]
  simp only [hu, hn, hs, hf, Bool.false_eq_true, if_false, if_true]

theorem advance_pending (launch : w.launch clock canceled = l) (hu : l.unwritten = none)
    (hn : ¬l.writer.active.isEmpty = true)
    (pass : pass clock l.writer.encoder l.writer.active = p) (hs : p.stop = none)
    (hf : ¬p.finished = true) :
    advance clock canceled w
      = ⟨{ l.writer with encoder := p.encoder, active := p.left }, l.actions ++ p.actions, p.polls,
        .pending⟩ := by
  subst launch pass
  rw [advance]
  simp only [hu, hn, hs, hf, Bool.false_eq_true, if_false]

end

theorem pass_finished_of_unwritten (clock : Clock) (encoder : Encoder) (active : List InFlight)
    (u : Unwritten) (h : (pass clock encoder active).stop = some (.unwritten u)) :
    (pass clock encoder active).finished = true := by
  induction active generalizing encoder with
  | nil => simp [pass] at h
  | cons f rest ih =>
      cases hs : (f.poll clock encoder).stage with
      | waiting body =>
          rw [pass_waiting rfl hs] at h ⊢
          exact ih _ h
      | done =>
          rw [pass_done rfl hs]
          rfl
      | failed fault => rw [pass_failed rfl hs]
      | crashed text body => simp [pass_crashed rfl hs] at h

theorem pass_stop {clock : Clock} {encoder : Encoder} {active : List InFlight} {standing : Standing}
    (h : (pass clock encoder active).stop = some standing) :
    standing ≠ .empty ∧ standing ≠ .pending := by
  induction active generalizing encoder with
  | nil => simp [pass] at h
  | cons f rest ih =>
      cases hs : (f.poll clock encoder).stage with
      | waiting body =>
          rw [pass_waiting rfl hs] at h
          exact ih h
      | done =>
          rw [pass_done rfl hs] at h
          exact ih h
      | failed fault =>
          rw [pass_failed rfl hs] at h
          obtain rfl := Option.some.inj h
          simp
      | crashed text body =>
          rw [pass_crashed rfl hs] at h
          obtain rfl := Option.some.inj h
          simp

theorem pass_load_lt {clock : Clock} {w : Writer}
    (hf : (pass clock w.encoder w.active).finished = true) (encoder : Encoder) :
    load { w with encoder := encoder, active := (pass clock w.encoder w.active).left } < w.load :=
  Nat.add_lt_add_left (pass_left_length_lt clock w.encoder w.active hf) _

theorem advance_load_lt (clock : Clock) (canceled : Nat → Bool) (w : Writer) (u : Unwritten)
    (h : (advance clock canceled w).standing = .unwritten u) :
    (advance clock canceled w).writer.load < w.load := by
  induction w using advance.induct clock canceled with
  | case1 w l v hu =>
      rw [advance_unwritten rfl hu]
      exact launch_load_lt w clock canceled v hu
  | case2 w l hu hn => simp [advance_empty rfl hu hn] at h
  | case3 w l hu hn p standing hs =>
      rw [advance_stopped rfl hu hn rfl hs] at h ⊢
      have hf := pass_finished_of_unwritten clock _ _ u (hs.trans (congrArg some h))
      exact Nat.lt_of_lt_of_le (pass_load_lt hf _) (launch_load_le w clock canceled)
  | case4 w l hu hn p rest hs hf ih =>
      rw [advance_again rfl hu hn rfl hs hf] at h ⊢
      have hlt : rest.load < w.load :=
        Nat.lt_of_lt_of_le (pass_load_lt hf _) (launch_load_le w clock canceled)
      exact Nat.lt_trans (ih h) hlt
  | case5 w l hu hn p hs hf => simp [advance_pending rfl hu hn rfl hs hf] at h

theorem abandon_load_le (w : Writer) (seq : Nat) (reset : Bool) :
    (w.abandon seq reset).1.load ≤ w.load := by
  have hq := (w.queue.eraseP_sublist (p := fun u => u.seq == seq)).length_le
  have ha := (w.active.eraseP_sublist (p := fun f => f.seq == seq)).length_le
  unfold abandon
  split
  · simp only [load]
    omega
  · dsimp only
    split <;> (simp only [load]; omega)

def debug (w : Writer) : String :=
  Text.record "RequestWriter"
    [("queued", toString w.queue.length),
      ("writing", Text.sequence (w.active.map fun f => toString f.seq)),
      ("multiplex", Text.boolean w.multiplex)]

def feed (w : Writer) (source : Nat) (frames : List Frame) (ended : Option Bool) : Writer :=
  { w with
    queue := w.queue.map fun u => { u with body := u.body.feed source frames ended }
    active := w.active.map fun f => { f with body := f.body.feed source frames ended } }

def fire (w : Writer) : Writer :=
  { w with active := w.active.map fun f => { f with timeout := f.timeout.map Sleep.fire } }

def sleeps (w : Writer) : List Sleep :=
  w.active.filterMap (·.timeout)

end Writer

end HttpSession
