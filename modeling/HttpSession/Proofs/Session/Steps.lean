import HttpSession.Proofs.Session.Writing
import HttpSession.Proofs.Tracker.Shedding
import Mathlib.Data.Prod.Lex

/-! A turn of writing taken apart into single steps of its loops. Whatever it meets on its way, it comes to an
end, and by then the writer was told of all that the tracker gave up. -/

namespace HttpSession

/-- What a turn of writing meets at one moment: the time, who has gone, how an encoder answers, which bodies
say that they are at their end, and what a body has when it begins to be asked for frames. It has finitely many
until it waits or ends, but they need not be those that were left the last time. -/
structure Moment where
  clock : Clock
  gone : Nat → Bool
  put : Encoder → Nat → Piece → Emission
  isEnd : Body → Bool
  fill : Body → Body

def Moment.plain (clock : Clock) (gone : Nat → Bool) : Moment :=
  ⟨clock, gone, Encoder.put, Body.isEnd, id⟩

inductive Place where
  | collecting (last : Bool)
  | stopping (last : Bool) (abandoned : List Abandoned)
  | launching
  | passing (finished : Bool) (left : List InFlight)
  | sending (finished : Bool) (f : InFlight) (left : List InFlight)
  | ended (crash : Option String)
  deriving DecidableEq, Repr

namespace Place

def held : Place → List InFlight
  | .passing _ left => left
  | .sending _ f left => f :: left
  | _ => []

def abandoned : Place → List Abandoned
  | .stopping _ abandoned => abandoned
  | _ => []

def crash? : Place → Option String
  | .ended crash => crash
  | _ => none

end Place

/-- A turn of writing on its way. During a pass, `writer.active` holds what was polled and waits. -/
structure Turn where
  writer : Writer
  tracker : Tracker
  stopped : List Abandoned
  place : Place
  deriving DecidableEq, Repr

namespace Turn

def start (w : Writer) (t : Tracker) : Turn := ⟨w, t, [], .collecting false⟩

def goTo (v : Turn) (place : Place) : Turn := { v with place := place }

def encode (v : Turn) (encoder : Encoder) : Turn :=
  { v with writer := { v.writer with encoder := encoder } }

def queue (v : Turn) (queue : List Upload) : Turn :=
  { v with writer := { v.writer with queue := queue } }

def fly (v : Turn) (active : List InFlight) : Turn :=
  { v with writer := { v.writer with active := active } }

def report (v : Turn) (u : Unwritten) : Traced Turn := do
  let left ← (Standing.unwritten u).report v.tracker
  return ({ v with tracker := left }.fly (v.writer.active ++ v.place.held)).goTo (.collecting false)

def giveUp (m : Moment) (v : Turn) (seq : Nat) (fault : Fault) : Traced Turn := do
  let given := m.put v.writer.encoder seq .reset
  Traced.perform (given.actions seq .reset)
  (v.encode given.encoder).report (.failed seq fault)

def hand (m : Moment) (v : Turn) (seq : Nat) (piece : Piece) (next : Turn → Turn) : Traced Turn := do
  let sent := m.put v.writer.encoder seq piece
  Traced.perform (sent.actions seq piece)
  match sent.fault with
  | none => return next (v.encode sent.encoder)
  | some fault => giveUp m (v.encode sent.encoder) seq fault

def board (v : Turn) : Turn :=
  if v.writer.active.isEmpty then v.goTo (.collecting true)
  else (v.fly []).goTo (.passing false v.writer.active)

def launch (m : Moment) (v : Turn) : Traced Turn :=
  match v.writer.queue with
  | [] => pure v.board
  | u :: rest =>
      if !v.writer.mayStart then pure v.board
      else if v.tracker.isCanceled m.gone u.seq then (v.queue rest).report (.canceled u.seq)
      else
        hand m (v.queue rest) u.seq (.headers u.head (m.isEnd u.body)) fun v =>
          v.fly (v.writer.active
            ++ if m.isEnd u.body then [] else [⟨u.seq, u.body, v.writer.timeoutOf m.clock u⟩])

def pass (m : Moment) (v : Turn) (finished : Bool) : List InFlight → Traced Turn
  | [] => pure (v.goTo (if finished then .launching else .collecting true))
  | f :: left =>
      if f.isLate m.clock then giveUp m (v.goTo (.passing finished left)) f.seq Fault.writeTimeout
      else pure (v.goTo (.sending finished { f with body := m.fill f.body } left))

def send (m : Moment) (v : Turn) (finished : Bool) (f : InFlight) (left : List InFlight) : Traced Turn :=
  let aside := v.goTo (.passing finished left)
  let done := fun v : Turn => v.goTo (.passing true left)
  match f.body.frames with
  | [] =>
      if f.body.ended then hand m aside f.seq (.data [] true) done
      else pure (aside.fly (v.writer.active ++ [f]))
  | .pending :: rest =>
      pure (aside.fly (v.writer.active ++ [{ f with body := { f.body with frames := rest } }]))
  | .crash text :: rest =>
      pure ((v.fly (v.writer.active ++ { f with body := { f.body with frames := rest } } :: left)).goTo
        (.ended (some text)))
  | .failure cause :: _ => giveUp m aside f.seq (Fault.userBody cause)
  | .trailers fields :: _ => hand m aside f.seq (.trailers fields) done
  | .data octets :: rest =>
      let body := { f.body with frames := rest }
      hand m aside f.seq (.data octets (m.isEnd body)) fun v =>
        if m.isEnd body then done v else v.goTo (.sending finished { f with body := body } left)

def step? (m : Moment) (v : Turn) : Option (Traced Turn) :=
  match v.place with
  | .collecting last =>
      some (pure ({ v with tracker := { v.tracker with abandoned := [] } }.goTo
        (.stopping last v.tracker.abandoned)))
  | .stopping last (a :: rest) =>
      let told := v.writer.abandon a.seq a.reset
      some ⟨⟨told.1, v.tracker, v.stopped ++ [a], .stopping last rest⟩, told.2⟩
  | .stopping last [] => some (pure (v.goTo (if last then .ended none else .launching)))
  | .launching => some (v.launch m)
  | .passing finished left => some (v.pass m finished left)
  | .sending finished f left => some (v.send m finished f left)
  | .ended _ => none

section

variable {m : Moment} {v : Turn}

theorem step?_launching (hp : v.place = .launching) : step? m v = some (v.launch m) := by
  simp only [step?, hp]

theorem step?_passing {finished : Bool} {left : List InFlight} (hp : v.place = .passing finished left) :
    step? m v = some (v.pass m finished left) := by
  simp only [step?, hp]

theorem step?_sending {finished : Bool} {f : InFlight} {left : List InFlight}
    (hp : v.place = .sending finished f left) : step? m v = some (v.send m finished f left) := by
  simp only [step?, hp]

end

/-- Where a turn of writing stands after so many steps, each at a moment of its own, if it takes so many. -/
def passed (moments : Nat → Moment) (v : Turn) : Nat → Option (Traced Turn)
  | 0 => some (pure v)
  | n + 1 => do
      let first ← step? (moments 0) v
      let rest ← passed (fun k => moments (k + 1)) first.value n
      return ⟨rest.value, first.actions ++ rest.actions⟩

section

variable {moments : Nat → Moment} {v : Turn} {r next : Traced Turn} {n : Nat}

theorem passed_succ (h : step? (moments 0) v = some next)
    (hr : passed (fun k => moments (k + 1)) next.value n = some r) :
    passed moments v (n + 1) = some ⟨r.value, next.actions ++ r.actions⟩ := by
  simp [passed, h, hr]

theorem passed_succ_inv (h : passed moments v (n + 1) = some r) :
    ∃ first rest, step? (moments 0) v = some first
      ∧ passed (fun k => moments (k + 1)) first.value n = some rest
      ∧ r = ⟨rest.value, first.actions ++ rest.actions⟩ := by
  simp only [passed, Option.bind_eq_bind, Option.bind_eq_some_iff] at h
  obtain ⟨first, hfirst, rest, hrest, hr⟩ := h
  exact ⟨first, rest, hfirst, hrest, (Option.some.inj hr).symm⟩

end

end Turn

/-- The loops in the order in which a turn comes to them while no request leaves the writer. A pass in which
one was written to its end comes before the queue, which is looked at again behind it. -/
def Place.rank : Place → Nat
  | .collecting false => 7
  | .stopping false _ => 6
  | .passing true _ | .sending true _ _ => 5
  | .launching => 4
  | .passing false _ | .sending false _ _ => 3
  | .collecting true => 2
  | .stopping true _ => 1
  | .ended _ => 0

namespace Turn

def load (v : Turn) : Nat := v.writer.load + v.place.held.length

def rounds (v : Turn) : Nat :=
  match v.place with
  | .stopping _ abandoned => abandoned.length
  | .launching => v.writer.queue.length
  | .passing _ left | .sending _ _ left => left.length
  | _ => 0

def frames (v : Turn) : Nat :=
  match v.place with
  | .sending _ f _ => f.body.frames.length + 1
  | _ => 0

def loops (v : Turn) : Nat ×ₗ Nat ×ₗ Nat := toLex (v.place.rank, toLex (v.rounds, v.frames))

def ahead (v : Turn) : Nat ×ₗ Nat ×ₗ Nat ×ₗ Nat := toLex (v.load, v.loops)

section

variable {v w : Turn}

theorem ahead_lt (hl : w.load ≤ v.load) (h : w.load = v.load → w.loops < v.loops) : w.ahead < v.ahead :=
  Prod.Lex.toLex_lt_toLex.2 (hl.lt_or_eq.imp_right fun he => ⟨he, h he⟩)

theorem loops_lt_of_rank (h : w.place.rank < v.place.rank) : w.loops < v.loops :=
  Prod.Lex.toLex_lt_toLex.2 (.inl h)

theorem loops_lt_of_rounds (hr : w.place.rank = v.place.rank) (h : w.rounds < v.rounds) : w.loops < v.loops :=
  Prod.Lex.toLex_lt_toLex.2 (.inr ⟨hr, Prod.Lex.toLex_lt_toLex.2 (.inl h)⟩)

theorem loops_lt_of_frames (hr : w.place.rank = v.place.rank) (hn : w.rounds = v.rounds) (h : w.frames < v.frames) :
    w.loops < v.loops :=
  Prod.Lex.toLex_lt_toLex.2 (.inr ⟨hr, Prod.Lex.toLex_lt_toLex.2 (.inr ⟨hn, h⟩)⟩)

end

def owed (v : Turn) : List Abandoned := v.place.abandoned ++ v.tracker.abandoned

def IsClear (v : Turn) : Prop := v.tracker.abandoned = [] ∨ ∃ last, v.place = .collecting last

structure Advances (v w : Turn) : Prop where
  nearer : w.ahead < v.ahead
  told : v.stopped ++ v.owed <+: w.stopped ++ w.owed
  clear : v.IsClear → w.IsClear

structure Lacks (v x : Turn) : Prop where
  fewer : x.load < v.load
  tracker : x.tracker = v.tracker
  stopped : x.stopped = v.stopped
  busy : v.place.abandoned = []

end Turn

theorem Standing.report_marks (u : Unwritten) (t : Tracker) :
    t.abandoned <+: ((Standing.unwritten u).report t).value.abandoned := by
  have hafter (t : Tracker) (given : List Nat) : t.abandoned <+: (t.afterAbandon given).value.abandoned := by
    rcases t.afterAbandon_cases given with ⟨reset, hvalue, -⟩ | ⟨-, habandoned, -⟩
    · exact hvalue ▸ List.prefix_append _ _
    · exact habandoned ▸ List.prefix_append _ _
  cases u with
  | canceled seq => exact List.prefix_rfl
  | failed seq fault =>
      simp only [report, Tracker.fail]
      split
      · unfold Tracker.abandon
        split
        · exact List.prefix_rfl
        · exact hafter (t.erase seq) [seq]
      · exact List.prefix_rfl

namespace Turn

variable {m : Moment} {v x w : Turn} {seq : Nat} {fault : Fault}

theorem report_load (x : Turn) (u : Unwritten) : (x.report u).value.load = x.load := by
  change x.writer.queue.length + (x.writer.active ++ x.place.held).length + 0
    = x.writer.queue.length + x.writer.active.length + x.place.held.length
  rw [List.length_append, Nat.add_zero, Nat.add_assoc]

namespace Lacks

theorem ofHeld {f : InFlight} {left : List InFlight} (held : v.place.held = f :: left)
    (busy : v.place.abandoned = []) (finished : Bool) : v.Lacks (v.goTo (.passing finished left)) where
  fewer := by
    change v.writer.load + left.length < v.writer.load + v.place.held.length
    rw [held]
    exact Nat.lt_succ_self _
  tracker := rfl
  stopped := rfl
  busy := busy

theorem encode (h : v.Lacks x) (encoder : Encoder) : v.Lacks (x.encode encoder) :=
  ⟨h.fewer, h.tracker, h.stopped, h.busy⟩

theorem report_advances (h : v.Lacks x) (u : Unwritten) : v.Advances (x.report u).value where
  nearer := Prod.Lex.toLex_lt_toLex.2 (.inl (x.report_load u ▸ h.fewer))
  told := by
    have hmarks := Standing.report_marks u x.tracker
    rw [owed, h.busy, ← h.stopped, ← h.tracker]
    exact (List.prefix_append_right_inj x.stopped).2 hmarks
  clear _ := .inr ⟨false, rfl⟩

theorem giveUp_advances (h : v.Lacks x) (m : Moment) (seq : Nat) (fault : Fault) :
    v.Advances (giveUp m x seq fault).value :=
  (h.encode _).report_advances _

theorem hand_advances (h : v.Lacks x) {piece : Piece} {next : Turn → Turn}
    (hnext : ∀ encoder, v.Advances (next (x.encode encoder))) : v.Advances (hand m x seq piece next).value := by
  unfold hand
  simp only [Traced.value_bind]
  split
  · exact hnext _
  · exact (h.encode _).giveUp_advances _ _ _

end Lacks

theorem Advances.ofSame (nearer : w.ahead < v.ahead) (tracker : w.tracker = v.tracker)
    (stopped : w.stopped = v.stopped) (before : v.place.abandoned = []) (behind : w.place.abandoned = [])
    (taken : ∀ last, v.place ≠ .collecting last) : v.Advances w where
  nearer := nearer
  told := by
    have hsame : w.stopped ++ w.owed = v.stopped ++ v.owed := by
      rw [owed, owed, tracker, stopped, before, behind]
    exact hsame ▸ List.prefix_rfl
  clear h := .inl (tracker ▸ h.resolve_right fun ⟨last, hp⟩ => taken last hp)

theorem board_advances (hp : v.place = .launching) : v.Advances v.board := by
  unfold board
  split
  all_goals
    refine .ofSame (ahead_lt ?_ fun _ => loops_lt_of_rank ?_) rfl rfl ?_ rfl (by simp [hp])
    all_goals simp [load, goTo, fly, hp, Place.held, Place.rank, Place.abandoned, Writer.load]

theorem launch_advances (m : Moment) (hp : v.place = .launching) : v.Advances (v.launch m).value := by
  unfold launch
  split
  · exact board_advances hp
  · rename_i u rest hq
    have hlacks : v.Lacks (v.queue rest) :=
      ⟨by simp [load, hp, Place.held, Writer.load, hq, queue], rfl, rfl, by rw [hp]; rfl⟩
    split
    · exact board_advances hp
    · split
      · exact hlacks.report_advances _
      · refine hlacks.hand_advances fun encoder => ?_
        refine .ofSame (ahead_lt ?_ fun _ => loops_lt_of_rounds rfl ?_) rfl rfl hlacks.busy
          hlacks.busy (by simp [hp])
        · cases m.isEnd u.body
          · simp [load, hp, queue, Turn.encode, fly, Place.held, Writer.load, hq]
            omega
          · simp [load, hp, queue, Turn.encode, fly, Place.held, Writer.load, hq]
        · simp [rounds, hp, hq, queue, Turn.encode, fly]

theorem pass_advances (m : Moment) {finished : Bool} {left : List InFlight} (hp : v.place = .passing finished left) :
    v.Advances (v.pass m finished left).value := by
  cases left with
  | nil =>
      refine .ofSame (ahead_lt ?_ fun _ => loops_lt_of_rank ?_) rfl rfl ?_ ?_ ?_
      all_goals cases finished <;> simp [pass, goTo, load, hp, Place.held, Place.rank, Place.abandoned]
  | cons f left =>
      rw [pass]
      split
      · have hlacks : v.Lacks (v.goTo (.passing finished left)) := .ofHeld (by rw [hp]; rfl) (by rw [hp]; rfl) finished
        exact hlacks.giveUp_advances _ _ _
      · refine .ofSame (ahead_lt ?_ fun _ => loops_lt_of_rounds ?_ ?_) rfl rfl ?_ rfl ?_
        all_goals cases finished <;> simp [goTo, load, hp, Place.held, Place.rank, Place.abandoned, rounds]

theorem send_advances (m : Moment) {finished : Bool} {f : InFlight} {left : List InFlight}
    (hp : v.place = .sending finished f left) : v.Advances (v.send m finished f left).value := by
  have hlacks : v.Lacks (v.goTo (.passing finished left)) := .ofHeld (by rw [hp]; rfl) (by rw [hp]; rfl) finished
  have hdone (encoder : Encoder) :
      v.Advances (((v.goTo (.passing finished left)).encode encoder).goTo (.passing true left)) := by
    refine .ofSame (ahead_lt hlacks.fewer.le fun he => absurd he ?_) rfl rfl hlacks.busy rfl (by simp [hp])
    exact hlacks.fewer.ne
  have hwait (body : Body) :
      v.Advances ((v.goTo (.passing finished left)).fly (v.writer.active ++ [{ f with body := body }])) := by
    refine .ofSame (ahead_lt ?_ fun _ => loops_lt_of_frames ?_ ?_ ?_) rfl rfl hlacks.busy rfl (by simp [hp])
    · simp [load, hp, goTo, fly, Place.held, Writer.load]
      omega
    all_goals cases finished <;> simp [goTo, fly, hp, Place.rank, rounds, frames]
  unfold send
  dsimp only
  split
  · split
    · exact hlacks.hand_advances hdone
    · exact hwait f.body
  · exact hwait _
  · refine .ofSame (ahead_lt ?_ fun _ => loops_lt_of_rank ?_) rfl rfl hlacks.busy rfl (by simp [hp])
    · simp [load, hp, goTo, fly, Place.held, Writer.load]
      omega
    · cases finished <;> simp [goTo, hp, Place.rank]
  · exact hlacks.giveUp_advances _ _ _
  · exact hlacks.hand_advances hdone
  · rename_i octets rest hframes
    refine hlacks.hand_advances fun encoder => ?_
    split
    · exact hdone encoder
    · refine .ofSame (ahead_lt ?_ fun _ => loops_lt_of_frames ?_ ?_ ?_) rfl rfl hlacks.busy rfl (by simp [hp])
      · simp [load, hp, goTo, Turn.encode, Place.held, Writer.load]
      all_goals cases finished <;> simp [goTo, hp, Place.rank, rounds, frames, hframes]

theorem collect_advances {last : Bool} (hp : v.place = .collecting last) :
    v.Advances ({ v with tracker := { v.tracker with abandoned := [] } }.goTo (.stopping last v.tracker.abandoned))
    where
  nearer := by
    refine ahead_lt ?_ fun _ => loops_lt_of_rank ?_
    · simp [load, goTo, hp, Place.held]
    · cases last <;> simp [goTo, hp, Place.rank]
  told := by simp [owed, goTo, hp, Place.abandoned]
  clear _ := .inl rfl

theorem stop_advances {last : Bool} {a : Abandoned} {rest : List Abandoned}
    (hp : v.place = .stopping last (a :: rest)) :
    v.Advances ⟨(v.writer.abandon a.seq a.reset).1, v.tracker, v.stopped ++ [a], .stopping last rest⟩ where
  nearer := by
    refine ahead_lt ?_ fun _ => loops_lt_of_rounds ?_ ?_
    · simpa [load, hp, Place.held] using v.writer.abandon_load_le a.seq a.reset
    · cases last <;> simp [hp, Place.rank]
    · simp [rounds, hp]
  told := by simp [owed, hp, Place.abandoned]
  clear h := .inl (by simpa [IsClear, hp] using h)

theorem stopped_advances {last : Bool} (hp : v.place = .stopping last []) :
    v.Advances (v.goTo (if last then .ended none else .launching)) := by
  refine .ofSame (ahead_lt ?_ fun _ => loops_lt_of_rank ?_) rfl rfl ?_ ?_ ?_
  all_goals cases last <;> simp [goTo, load, hp, Place.held, Place.rank, Place.abandoned]

theorem step?_advances {next : Traced Turn} (h : step? m v = some next) : v.Advances next.value := by
  cases hp : v.place with
  | collecting last =>
      simp only [step?, hp] at h
      obtain rfl := Option.some.inj h
      exact collect_advances hp
  | stopping last abandoned =>
      cases abandoned with
      | nil =>
          simp only [step?, hp] at h
          obtain rfl := Option.some.inj h
          exact stopped_advances hp
      | cons a rest =>
          simp only [step?, hp] at h
          obtain rfl := Option.some.inj h
          exact stop_advances hp
  | launching =>
      obtain rfl := Option.some.inj ((step?_launching hp).symm.trans h)
      exact launch_advances m hp
  | passing finished left =>
      obtain rfl := Option.some.inj ((step?_passing hp).symm.trans h)
      exact pass_advances m hp
  | sending finished f left =>
      obtain rfl := Option.some.inj ((step?_sending hp).symm.trans h)
      exact send_advances m hp
  | ended crash => simp [step?, hp] at h

variable {moments : Nat → Moment} {r : Traced Turn} {n : Nat}

theorem ended_of_step?_eq_none (h : step? m v = none) : ∃ crash, v.place = .ended crash := by
  cases hp : v.place with
  | ended crash => exact ⟨crash, rfl⟩
  | stopping last abandoned => cases abandoned <;> simp [step?, hp] at h
  | collecting | launching | passing | sending => simp [step?, hp] at h

theorem exists_ended (moments : Nat → Moment) (v : Turn) :
    ∃ n r crash, passed moments v n = some r ∧ r.value.place = .ended crash := by
  -- What is ahead gets less with each step, and the moments that are left are moments like any others.
  induction hv : v.ahead using WellFoundedLT.induction generalizing moments v with
  | ind ahead ih =>
      cases hfirst : step? (moments 0) v with
      | none =>
          obtain ⟨crash, hended⟩ := ended_of_step?_eq_none hfirst
          exact ⟨0, pure v, crash, rfl, hended⟩
      | some first =>
          have hnearer := (step?_advances hfirst).nearer
          obtain ⟨n, rest, crash, hrest, hended⟩ :=
            ih _ (hv ▸ hnearer) (fun k => moments (k + 1)) first.value rfl
          exact ⟨n + 1, _, crash, passed_succ hfirst hrest, hended⟩

structure Ends (moments : Nat → Moment) (v : Turn) (n : Nat) (r : Traced Turn) : Prop where
  reached : passed moments v n = some r
  ended : ∃ crash, r.value.place = .ended crash
  collected : r.value.tracker.abandoned = []
  told : ∀ k mid, passed moments v k = some mid → mid.value.stopped ++ mid.value.owed <+: r.value.stopped

theorem passed_of_ended {crash : Option String} (hended : v.place = .ended crash) (h : passed moments v n = some r) :
    r = pure v := by
  cases n with
  | zero => exact (Option.some.inj h).symm
  | succ n =>
      obtain ⟨first, rest, hfirst, -, -⟩ := passed_succ_inv h
      simp [step?, hended] at hfirst

theorem ends_of_ended (hc : v.IsClear) {crash : Option String} (h : passed moments v n = some r)
    (hended : r.value.place = .ended crash) : Ends moments v n r := by
  induction n generalizing moments v r with
  | zero =>
      obtain rfl := Option.some.inj h
      have hcollected : v.tracker.abandoned = [] := hc.resolve_right (by simp [show v.place = _ from hended])
      refine ⟨rfl, ⟨crash, hended⟩, hcollected, fun k mid hmid => ?_⟩
      obtain rfl := passed_of_ended hended hmid
      simp [owed, show v.place = _ from hended, Place.abandoned, hcollected]
  | succ n ih =>
      obtain ⟨first, rest, hfirst, hrest, rfl⟩ := passed_succ_inv h
      have hadvances := step?_advances hfirst
      have hends := ih (hadvances.clear hc) hrest hended
      refine ⟨h, ⟨crash, hended⟩, hends.collected, fun k mid hmid => ?_⟩
      cases k with
      | zero =>
          obtain rfl := Option.some.inj hmid
          exact hadvances.told.trans (hends.told 0 (pure first.value) rfl)
      | succ k =>
          obtain ⟨other, more, hother, hmore, rfl⟩ := passed_succ_inv hmid
          obtain rfl := Option.some.inj (hfirst.symm.trans hother)
          exact hends.told k more hmore

theorem start_isClear (w : Writer) (t : Tracker) : (start w t).IsClear := .inr ⟨false, rfl⟩

theorem exists_ends (moments : Nat → Moment) (hc : v.IsClear) : ∃ n r, Ends moments v n r := by
  obtain ⟨n, r, crash, hr, hended⟩ := exists_ended moments v
  exact ⟨n, r, ends_of_ended hc hr hended⟩

end Turn

end HttpSession
