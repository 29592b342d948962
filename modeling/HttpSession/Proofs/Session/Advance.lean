import HttpSession.Proofs.Session.Reached

/-! What a move does to the requests that are awaited, waiting or in flight. -/

namespace HttpSession

open Happening (ofActions)

namespace Happening

def launched? : Happening → Option Nat
  | .action (.encode seq (.headers _ _) true) => some seq
  | _ => none

def enrolled? : Happening → Option (Nat × Nat)
  | .action (.enroll seq sink) => some (seq, sink)
  | _ => none

end Happening

def launched (h : List Happening) : List Nat := h.filterMap Happening.launched?

def enrolled (h : List Happening) : List (Nat × Nat) := h.filterMap Happening.enrolled?

section

variable {h x : List Happening} {actions : List Action}

@[simp] theorem launched_nil : launched [] = [] := rfl

@[simp] theorem enrolled_nil : enrolled [] = [] := rfl

@[simp] theorem launched_append : launched (h ++ x) = launched h ++ launched x :=
  List.filterMap_append

@[simp] theorem enrolled_append : enrolled (h ++ x) = enrolled h ++ enrolled x :=
  List.filterMap_append

@[simp] theorem launched_input (i : Input) : launched (.input i :: h) = launched h := rfl

@[simp] theorem enrolled_input (i : Input) : enrolled (.input i :: h) = enrolled h := rfl

theorem launched_eq_nil (hl : ∀ a ∈ actions, Happening.launched? (.action a) = none) :
    launched (ofActions actions) = [] := by
  simpa [launched, Happening.ofActions] using hl

theorem enrolled_eq_nil (he : ∀ a ∈ actions, Happening.enrolled? (.action a) = none) :
    enrolled (ofActions actions) = [] := by
  simpa [enrolled, Happening.ofActions] using he

theorem Action.launched?_of_isQuiet {a : Action} (h : a.isQuiet = true) :
    Happening.launched? (.action a) = none := by
  cases a with
  | encode => simp [isQuiet, isIdle] at h
  | _ => rfl

theorem Action.enrolled?_of_isQuiet {a : Action} (h : a.isQuiet = true) :
    Happening.enrolled? (.action a) = none := by
  cases a with
  | enroll => simp [isQuiet, isIdle] at h
  | _ => rfl

theorem launched_quiet (hq : ∀ a ∈ actions, a.isQuiet = true) : launched (ofActions actions) = [] :=
  launched_eq_nil fun a ha => Action.launched?_of_isQuiet (hq a ha)

theorem enrolled_quiet (hq : ∀ a ∈ actions, a.isQuiet = true) : enrolled (ofActions actions) = [] :=
  enrolled_eq_nil fun a ha => Action.enrolled?_of_isQuiet (hq a ha)

theorem Quiet.launched (hq : Quiet h) : launched h = [] := by
  simp only [HttpSession.launched, List.filterMap_eq_nil_iff]
  intro x hx
  cases x with
  | input => rfl
  | action a => exact Action.launched?_of_isQuiet (hq a hx)

theorem Quiet.enrolled (hq : Quiet h) : enrolled h = [] := by
  simp only [HttpSession.enrolled, List.filterMap_eq_nil_iff]
  intro x hx
  cases x with
  | input => rfl
  | action a => exact Action.enrolled?_of_isQuiet (hq a hx)

theorem Quiet.ofIdle (hi : ∀ x ∈ h, x.isIdle = true) : Quiet h := fun _ ha =>
  Action.isQuiet_of_isIdle (hi _ ha)

end

namespace Emission

variable {sent : Emission} {seq : Nat} {piece : Piece}

@[simp] theorem enrolled_actions : enrolled (ofActions (sent.actions seq piece)) = [] := by
  refine enrolled_eq_nil fun a ha => ?_
  rcases List.mem_append.1 ha with ha | ha
  · obtain ⟨c, -, rfl⟩ := List.mem_map.1 ha
    rfl
  · obtain rfl := List.mem_singleton.1 ha
    rfl

theorem launched_actions : launched (ofActions (sent.actions seq piece))
    = (Happening.launched? (.action (.encode seq piece sent.fault.isNone))).toList := by
  have hcalls : launched (ofActions (sent.calls.map Action.call)) = [] := by
    refine launched_eq_nil fun a ha => ?_
    obtain ⟨c, -, rfl⟩ := List.mem_map.1 ha
    rfl
  rw [actions, Happening.ofActions_append, launched_append, hcalls]
  rfl

@[simp] theorem launched_of_body (hp : piece.isBody = true ∨ piece = .reset) :
    launched (ofActions (sent.actions seq piece)) = [] := by
  rw [launched_actions]
  cases piece with
  | headers => simp [Piece.isBody] at hp
  | _ => rfl

theorem launched_of_fault {fault : Fault} (hf : sent.fault = some fault) :
    launched (ofActions (sent.actions seq piece)) = [] := by
  rw [launched_actions, hf]
  cases piece <;> rfl

theorem launched_of_headers {head : Head} {last : Bool} (ok : sent.fault = none) :
    launched (ofActions (sent.actions seq (.headers head last))) = [seq] := by
  rw [launched_actions, ok]
  rfl

end Emission

theorem Writer.started_seqs (w : Writer) (clock : Clock) (u : Upload) :
    ((w.started clock u).map InFlight.seq).Sublist [u.seq] := by
  unfold started
  split <;> simp

namespace Traffic

variable {c d : Traffic} {h x : List Happening}

def queued (c : Traffic) : List Nat := c.writer.queue.map Upload.seq

def flying (c : Traffic) : List Nat := c.writer.active.map InFlight.seq

section

variable (c : Traffic) (options : Options) (request : Request) (sink : Nat)
  (deadline : Option Instant)

theorem enroll_pending :
    (c.enroll options request sink deadline).value.tracker.pending
      = (c.tracker.register (c.dispatched + 1) sink options.maxLength deadline).pending := by
  unfold enroll
  dsimp only
  split <;> rfl

theorem enroll_desynced :
    (c.enroll options request sink deadline).value.tracker.desynced = c.tracker.desynced := by
  unfold enroll
  dsimp only
  split <;> rfl

theorem enroll_abandoned :
    (c.enroll options request sink deadline).value.tracker.abandoned = c.tracker.abandoned := by
  unfold enroll
  dsimp only
  split <;> rfl

theorem enroll_dispatched :
    (c.enroll options request sink deadline).value.dispatched = c.dispatched + 1 := rfl

theorem enroll_draining (hfull : c.ceiling ≤ c.dispatched + 1) :
    (c.enroll options request sink deadline).value.tracker.draining = true := by
  simp [enroll, hfull, Tracker.closeAfterDrain]

theorem enroll_queued :
    (c.enroll options request sink deadline).value.queued = c.queued ++ [c.dispatched + 1] := by
  simp [enroll, queued, Writer.enqueue]

theorem enroll_actions :
    ∃ closing, (c.enroll options request sink deadline).actions
        = .enroll (c.dispatched + 1) sink :: closing
      ∧ ∀ a ∈ closing, a.isQuiet = true := by
  refine ⟨_, rfl, ?_⟩
  split
  · exact Tracker.closeAfterDrain_quiet _
  · simp

theorem enrolled_enroll :
    enrolled (ofActions (c.enroll options request sink deadline).actions)
      = [(c.dispatched + 1, sink)] := by
  obtain ⟨closing, ha, hq⟩ := c.enroll_actions options request sink deadline
  rw [ha, Happening.ofActions_cons]
  exact congrArg ((c.dispatched + 1, sink) :: ·) (enrolled_quiet hq)

theorem launched_enroll :
    launched (ofActions (c.enroll options request sink deadline).actions) = [] := by
  obtain ⟨closing, ha, hq⟩ := c.enroll_actions options request sink deadline
  rw [ha, Happening.ofActions_cons]
  exact launched_quiet hq

end

structure Advance (c : Traffic) (x : List Happening) (d : Traffic) : Prop where
  tracker : c.tracker.Wanes d.tracker
  dispatched : d.dispatched = c.dispatched
  enrolled : enrolled x = []
  lines : (launched x ++ d.queued).Sublist c.queued
  placed : ∀ seq ∈ d.tracker.seqs, seq ∈ c.queued → seq ∈ launched x ++ d.queued
  flying : d.flying.Sublist (c.flying ++ launched x)
  wanted : ∀ seq ∈ launched x, seq ∈ c.tracker.seqs

theorem Advance.ofTracker {t : Tracker} (ht : c.tracker.Wanes t) (he : HttpSession.enrolled x = [])
    (hl : launched x = []) : Advance c x { c with tracker := t } where
  tracker := ht
  dispatched := rfl
  enrolled := he
  lines := by rw [hl]; exact .refl _
  placed seq _ hq := by rw [hl]; exact hq
  flying := by rw [hl, List.append_nil]; exact .refl _
  wanted := by simp [hl]

theorem Advance.ofWriter {w : Writer} (hq : w.queue.map Upload.seq = c.queued)
    (ha : (w.active.map InFlight.seq).Sublist c.flying)
    (he : HttpSession.enrolled x = []) (hl : launched x = []) : Advance c x { c with writer := w } where
  tracker := .refl _
  dispatched := rfl
  enrolled := he
  lines := by rw [hl]; exact hq ▸ .refl _
  placed seq _ hc := by rw [hl, queued, hq]; exact hc
  flying := by rw [hl, List.append_nil]; exact ha
  wanted := by simp [hl]

@[simp] theorem launched_giveUp (c : Traffic) (seq : Nat) (fault : Fault) :
    launched (ofActions (c.giveUp seq fault).actions) = [] := by
  simp [giveUp, track, encode, launched_quiet (Tracker.fail_quiet c.tracker seq fault)]

@[simp] theorem enrolled_giveUp (c : Traffic) (seq : Nat) (fault : Fault) :
    HttpSession.enrolled (ofActions (c.giveUp seq fault).actions) = [] := by
  simp [giveUp, track, encode, enrolled_quiet (Tracker.fail_quiet c.tracker seq fault)]

theorem Advance.ofGiveUp {w : Writer} {seq : Nat} {fault : Fault} (actions : List Action)
    (hq : (w.queue.map Upload.seq).Sublist c.queued)
    (hout : ∀ s ∈ c.queued, s ∈ w.queue.map Upload.seq ∨ s = seq)
    (ha : (w.active.map InFlight.seq).Sublist c.flying)
    (he : HttpSession.enrolled (ofActions actions) = []) (hl : launched (ofActions actions) = []) :
    Advance c (ofActions (actions ++ ({ c with writer := w }.giveUp seq fault).actions))
      ({ c with writer := w }.giveUp seq fault).value := by
  have hl' : launched (ofActions (actions ++ ({ c with writer := w }.giveUp seq fault).actions)) = [] := by
    simp [hl]
  exact {
    tracker := Tracker.fail_wanes _ _ _
    dispatched := rfl
    enrolled := by simp [he]
    lines := by
      rw [hl']
      exact hq
    placed := by
      intro s hs hc
      rw [hl']
      refine (hout s hc).resolve_right ?_
      rintro rfl
      exact Tracker.fail_seqs _ _ _ hs
    flying := by
      rw [hl', List.append_nil]
      exact ha
    wanted := by
      rw [hl']
      simp }

theorem queued_next {u : Upload} {rest : List Upload} (next : c.writer.queue = u :: rest) :
    c.queued = u.seq :: rest.map Upload.seq := by
  rw [queued, next]
  rfl

theorem flying_take {f : InFlight} {before behind : List InFlight}
    (flight : c.writer.active = before ++ f :: behind) :
    ((before ++ behind).map InFlight.seq).Sublist c.flying := by
  rw [flying, flight]
  exact ((List.sublist_cons_self f behind).append_left before).map _

theorem flying_keep {f g : InFlight} {before behind : List InFlight}
    (flight : c.writer.active = before ++ f :: behind) (hseq : g.seq = f.seq) :
    ((before ++ g :: behind).map InFlight.seq).Sublist c.flying := by
  simp [flying, flight, hseq]

theorem Advance.ofStop (a : Abandoned) {rest : List Abandoned} (given : c.tracker.abandoned = a :: rest)
    (hout : a.seq ∉ c.tracker.seqs) :
    Advance c (ofActions (c.writer.abandon a.seq a.reset).2)
      { c with
        writer := (c.writer.abandon a.seq a.reset).1
        tracker := { c.tracker with abandoned := rest } } := by
  have hwanes : c.tracker.Wanes { c.tracker with abandoned := rest } :=
    ⟨.refl _, fun b hb => .inl (given ▸ List.mem_cons_of_mem a hb), .inl, id, rfl, rfl⟩
  unfold Writer.abandon
  split
  · refine ⟨hwanes, rfl, rfl, ?_, fun seq hs hq => ?_, ?_, by simp⟩
    · exact List.eraseP_sublist.map _
    · obtain ⟨u, hu, rfl⟩ := List.mem_map.1 hq
      refine List.mem_map_of_mem ((List.mem_eraseP_of_neg ?_).2 hu)
      simpa using fun he : u.seq = a.seq => hout (he ▸ hs)
    · simp only [launched_nil, Happening.ofActions_nil, List.append_nil]
      exact .refl _
  · have hactive : ((c.writer.active.eraseP (·.seq == a.seq)).map InFlight.seq).Sublist c.flying :=
      List.eraseP_sublist.map _
    dsimp only
    split
    · refine ⟨hwanes, rfl, by simp, ?_, fun seq _ hq => ?_, ?_, by simp⟩
      · rw [Emission.launched_of_body (.inr rfl)]
        exact .refl _
      · rw [Emission.launched_of_body (.inr rfl)]
        exact hq
      · rw [Emission.launched_of_body (.inr rfl), List.append_nil]
        exact hactive
    · refine ⟨hwanes, rfl, rfl, .refl _, fun _ _ hq => hq, ?_, by simp⟩
      rw [Happening.ofActions_nil, launched_nil, List.append_nil]
      exact hactive

theorem receive_silent (ht : c.tracker.InOrder) (stream : Option StreamId) (part : Part) :
    launched (ofActions (c.receive stream part).actions) = []
      ∧ HttpSession.enrolled (ofActions (c.receive stream part).actions) = [] := by
  have hreply : ∀ a ∈ (c.receive stream part).actions,
      Happening.launched? (.action a) = none ∧ Happening.enrolled? (.action a) = none := by
    intro a ha
    rcases List.mem_append.1 ha with ha | ha
    · rcases Tracker.receive_replies ht stream part a ha with hq | ⟨-, p, -, head, -, -, -, rfl⟩
      · exact ⟨Action.launched?_of_isQuiet hq, Action.enrolled?_of_isQuiet hq⟩
      · exact ⟨rfl, rfl⟩
    · split at ha
      · obtain rfl := List.mem_singleton.1 ha
        exact ⟨rfl, rfl⟩
      · simp at ha
  exact ⟨launched_eq_nil fun a ha => (hreply a ha).1, enrolled_eq_nil fun a ha => (hreply a ha).2⟩

theorem Advance.ofSkip {u : Upload} {rest : List Upload} (next : c.writer.queue = u :: rest) :
    Advance c (ofActions ((c.queue rest).track (c.tracker.forget u.seq)).actions)
      ((c.queue rest).track (c.tracker.forget u.seq)).value := by
  have hq := c.tracker.forget_quiet u.seq
  have hl : launched (ofActions ((c.queue rest).track (c.tracker.forget u.seq)).actions) = [] :=
    launched_quiet hq
  exact {
    tracker := Tracker.forget_wanes _ _
    dispatched := rfl
    enrolled := enrolled_quiet hq
    lines := by
      rw [hl, queued_next next]
      exact List.sublist_cons_self u.seq _
    placed := by
      intro seq hs hc
      rw [hl]
      rw [queued_next next] at hc
      refine (List.mem_cons.1 hc).resolve_left ?_
      rintro rfl
      exact Tracker.forget_seqs _ _ hs
    flying := by
      rw [hl, List.append_nil]
      exact .refl _
    wanted := by simp [hl] }

theorem Advance.ofLaunch {u : Upload} {rest : List Upload} (next : c.writer.queue = u :: rest)
    (hw : u.seq ∈ c.tracker.seqs) {sent : Emission} (ok : sent.fault = none) (clock : Clock) :
    Advance c (ofActions (sent.actions u.seq (.headers u.head u.body.isEnd)))
      (((c.queue rest).encode sent.encoder).fly (c.writer.active ++ c.writer.started clock u)) := by
  have hl : launched (ofActions (sent.actions u.seq (.headers u.head u.body.isEnd))) = [u.seq] :=
    sent.launched_of_headers ok
  exact {
    tracker := .refl _
    dispatched := rfl
    enrolled := by simp
    lines := by
      rw [hl, queued_next next]
      exact .refl _
    placed := by
      intro seq _ hc
      rw [hl]
      rwa [queued_next next] at hc
    flying := by
      rw [hl]
      simp only [Traffic.flying, fly, encode, Traffic.queue, List.map_append]
      exact (c.writer.started_seqs clock u).append_left _
    wanted := by
      rw [hl]
      simpa using hw }

theorem Write.advance {clock : Clock} {gone : Nat → Bool}
    (hout : ∀ a ∈ c.tracker.abandoned, a.seq ∉ c.tracker.seqs) (hw : Write clock gone c x d) :
    Advance c x d := by
  cases hw with
  | stop a rest given => exact .ofStop a given (hout a (given ▸ List.mem_cons_self))
  | skip u rest stopped next free canceled => exact .ofSkip next
  | launch u rest sent stopped next free wanted put ok =>
      exact .ofLaunch next (Tracker.mem_seqs_of_wanted wanted) ok clock
  | miss u rest sent fault stopped next free wanted put failed =>
      refine .ofGiveUp _ ?_ (fun s hs => ?_) (.refl _) (by simp) (sent.launched_of_fault failed)
      · rw [queued_next next]
        exact List.sublist_cons_self u.seq _
      · rw [queued_next next] at hs
        exact (List.mem_cons.1 hs).symm
  | proceed f before behind octets rest sent stopped flight frame put ok =>
      exact .ofWriter rfl (flying_keep flight rfl) (by simp) (by simp [Piece.isBody])
  | stall f before behind stopped flight => exact .ofWriter rfl (flying_keep flight rfl) rfl rfl
  | complete f before behind piece sent stopped flight final put ok =>
      exact .ofWriter rfl (flying_take flight) (by simp)
        (sent.launched_of_body (.inl (Piece.isBody_of_isFinal final)))
  | lose f before behind piece sent fault stopped flight body put failed =>
      exact .ofGiveUp _ (.refl _) (fun _ => .inl) (flying_take flight) (by simp)
        (sent.launched_of_fault failed)
  | breakOff f before behind fault stopped flight =>
      exact .ofGiveUp (w := { c.writer with active := before ++ behind }) [] (.refl _)
        (fun _ => .inl) (flying_take flight) enrolled_nil launched_nil

theorem Move.advance (ht : c.tracker.InOrder)
    (hout : ∀ a ∈ c.tracker.abandoned, a.seq ∉ c.tracker.seqs) (hm : Move c x d) :
    Advance c x d ∨ ∃ clock options request sink deadline, c.hasRoom = true
      ∧ x = .input (.dispatch clock options request sink)
          :: ofActions (c.enroll options request sink deadline).actions
      ∧ d = (c.enroll options request sink deadline).value := by
  cases hm with
  | idle e he =>
      exact .inl (.ofTracker (.refl _) (Quiet.ofIdle he).enrolled (Quiet.ofIdle he).launched)
  | enroll clock options request sink deadline room =>
      exact .inr ⟨clock, options, request, sink, deadline, room, rfl, rfl⟩
  | refuse => exact .inl (.ofTracker (.refl _) rfl rfl)
  | receive stream part =>
      obtain ⟨hl, he⟩ := receive_silent ht stream part
      exact .inl (.ofTracker (Tracker.receive_wanes _ _ _) he hl)
  | expire now =>
      have hq := c.tracker.expire_quiet now
      exact .inl (.ofTracker (Tracker.expire_wanes ht now) (enrolled_quiet hq) (launched_quiet hq))
  | wire f => exact .inl (.ofWriter rfl (.refl _) rfl rfl)
  | sink f => exact .inl (.ofWriter rfl (.refl _) rfl rfl)
  | feed source frames ended =>
      refine .inl (.ofWriter ?_ ?_ rfl rfl) <;>
        simp [Writer.feed, queued, flying, Function.comp_def]
  | fire => exact .inl (.ofWriter rfl (by simp [Writer.fire, flying, Function.comp_def]) rfl rfl)
  | write clock gone wrote => exact .inl (wrote.advance hout)

end Traffic

def Happening.isPlain : Happening → Bool
  | .input (.response _ _) | .action (.answer _ (.complete _)) => false
  | _ => true

def Plain (h : List Happening) : Prop := ∀ x ∈ h, x.isPlain = true

namespace Plain

variable {h x : List Happening} {actions : List Action}

theorem nil : Plain [] := fun _ hx => nomatch hx

theorem append (hh : Plain h) (hx : Plain x) : Plain (h ++ x) := fun y hy =>
  (List.mem_append.1 hy).elim (hh y) (hx y)

theorem ofQuiet (hq : ∀ a ∈ actions, a.isQuiet = true) : Plain (ofActions actions) := by
  intro x hx
  obtain ⟨a, ha, rfl⟩ := List.mem_map.1 hx
  have := hq a ha
  cases a with
  | answer sink reply => cases reply with
    | complete => simp [Action.isQuiet, Action.isIdle] at this
    | failed => rfl
  | _ => rfl

theorem ofEmission (sent : Emission) (seq : Nat) (piece : Piece) :
    Plain (ofActions (sent.actions seq piece)) := by
  intro x hx
  obtain ⟨a, ha, rfl⟩ := List.mem_map.1 hx
  rcases List.mem_append.1 ha with ha | ha
  · obtain ⟨c, -, rfl⟩ := List.mem_map.1 ha
    rfl
  · obtain rfl := List.mem_singleton.1 ha
    rfl

theorem ofIdle (hi : ∀ x ∈ h, x.isIdle = true) : Plain h := by
  intro x hx
  have := hi x hx
  cases x with
  | input i => cases i <;> simp_all [Happening.isIdle, Input.isIdle, Happening.isPlain]
  | action a => cases a <;> simp_all [Happening.isIdle, Action.isIdle, Happening.isPlain]

end Plain

namespace Traffic

variable {c d : Traffic} {x : List Happening}

theorem giveUp_plain (c : Traffic) (seq : Nat) (fault : Fault) :
    Plain (ofActions (c.giveUp seq fault).actions) := by
  rw [giveUp, Happening.ofActions_append]
  exact (Plain.ofEmission _ _ _).append (.ofQuiet (Tracker.fail_quiet _ _ _))

theorem Write.plain {clock : Clock} {gone : Nat → Bool} (hw : Write clock gone c x d) : Plain x := by
  cases hw with
  | stop a rest given =>
      unfold Writer.abandon
      split
      · exact .nil
      · dsimp only
        split
        · exact .ofEmission _ _ _
        · exact .nil
  | skip u rest => exact .ofQuiet (c.tracker.forget_quiet u.seq)
  | launch | proceed | complete => exact .ofEmission _ _ _
  | miss | lose =>
      rw [Happening.ofActions_append]
      exact (Plain.ofEmission _ _ _).append (giveUp_plain _ _ _)
  | breakOff => exact giveUp_plain _ _ _
  | stall => exact .nil

theorem Move.plain (hm : Move c x d) :
    Plain x ∨ ∃ stream part, x = .input (.response stream part)
        :: ofActions (c.receive stream part).actions ∧ d = (c.receive stream part).value := by
  cases hm with
  | receive stream part => exact .inr ⟨stream, part, rfl, rfl⟩
  | idle e he => exact .inl (.ofIdle he)
  | enroll clock options request sink deadline room =>
      obtain ⟨closing, ha, hq⟩ := c.enroll_actions options request sink deadline
      rw [ha, Happening.ofActions_cons]
      exact .inl (.append (h := [_, _]) (by simp [Plain, Happening.isPlain]) (.ofQuiet hq))
  | expire now => exact .inl (.ofQuiet (c.tracker.expire_quiet now))
  | write clock gone wrote => exact .inl wrote.plain
  | refuse | wire | sink | feed | fire => exact .inl (by simp [Plain, Happening.isPlain])

end Traffic

end HttpSession
