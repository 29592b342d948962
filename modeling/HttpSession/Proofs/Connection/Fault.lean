import HttpSession.Proofs.Connection.Answers

namespace HttpSession

def Fault.IsOutside (f : Fault) : Prop := f.kind = .protocolViolation ∨ f.kind = .io

namespace Tracker

variable {t : Tracker} {stream : Option StreamId} {part : Part} {fault : Fault}

theorem route_outside (h : t.route stream = .wrong fault) : fault.IsOutside := by
  unfold route at h
  split at h
  · split at h
    · obtain rfl := Route.wrong.inj h
      exact .inl rfl
    · simp at h
  · split at h
    · obtain rfl := Route.wrong.inj h
      exact .inl rfl
    · split at h
      · obtain rfl := Route.wrong.inj h
        exact .inl rfl
      · split at h <;> simp at h

theorem receive_outside (h : (t.receive stream part).value.fault = some fault) : fault.IsOutside := by
  unfold receive at h
  split at h
  · simp [accepted] at h
  · split at h
    · rename_i wrong hroute
      obtain rfl : wrong = fault := Option.some.inj h
      exact route_outside hroute
    · simp [accepted] at h
    · split at h
      · simp [accepted] at h
      · rename_i p _
        have hreception := t.receivePart_reception p part
        generalize t.receivePart p part = r at hreception h
        cases hreception with
        | wrong text =>
            obtain rfl := Option.some.inj h
            exact .inl rfl
        | _ => simp [accepted] at h

end Tracker

namespace Session

variable {s : Session} {fault : Fault}

theorem onResponse_outside {stream : Option StreamId} {part : Part}
    (h : (s.onResponse stream part).value.2 = some fault) : fault.IsOutside := by
  unfold onResponse at h
  split at h
  · obtain rfl := Option.some.inj h
    exact .inl rfl
  · simp at h
  · exact Tracker.receive_outside h

theorem onMessage_outside {m : Message} (h : (s.onMessage m).value.2 = some fault) : fault.IsOutside := by
  unfold onMessage at h
  split at h
  · simp at h
  · obtain rfl := Option.some.inj h
    exact .inl rfl

theorem onTransportError_outside {e : IoError} (h : (s.onTransportError e).value.2 = some fault) :
    fault.IsOutside := by
  unfold onTransportError at h
  dsimp only at h
  split at h
  · simp at h
  · obtain rfl := Option.some.inj h
    exact .inr rfl

end Session

structure Blames (x y : Option Fault) : Prop where
  kept : ∀ fault, x = some fault → y = some fault
  outside : ∀ fault, y = some fault → x = some fault ∨ fault.IsOutside

namespace Blames

variable {x y z verdict : Option Fault}

theorem refl (x : Option Fault) : Blames x x := ⟨fun _ => id, fun _ => .inl⟩

theorem trans (hx : Blames x y) (hy : Blames y z) : Blames x z where
  kept fault h := hy.kept fault (hx.kept fault h)
  outside fault h := (hy.outside fault h).elim (hx.outside fault) .inr

theorem record (x : Option Fault) (h : ∀ fault, verdict = some fault → fault.IsOutside) :
    Blames x (x.or verdict) where
  kept fault hx := by rw [hx, Option.some_or]
  outside fault hy := (Option.or_eq_some_iff.1 hy).imp_right fun hv => h fault hv.2

end Blames

namespace Attempt

variable {a : Attempt} {clock : Clock} {gone : Nat → Bool} {n : Nat} {log : List Entry}

theorem react_fault (a : Attempt) (x : Action) :
    (a.react x).value.connection.fault = a.connection.fault := by
  unfold react
  split
  · simp only [Connection.closeChannel]
    split <;> rfl
  · split <;> rfl
  · rfl
  · rfl

theorem reacts_fault (a : Attempt) (actions : List Action) :
    (a.reacts actions).value.connection.fault = a.connection.fault := by
  induction actions generalizing a with
  | nil => rfl
  | cons x rest ih => exact (ih _).trans (a.react_fault x)

theorem ask_fault (a : Attempt) {α : Type} (i : Input) (f : Session → Traced (Session × α)) :
    (a.ask i f).value.1.connection.fault = a.connection.fault :=
  reacts_fault _ _

theorem hear_fault (a : Attempt) (i : Input) : (a.hear i).value.connection.fault = a.connection.fault :=
  reacts_fault _ _

theorem judged_blames (a : Attempt) {i : Input} {f : Session → Traced (Session × Option Fault)}
    (hf : ∀ fault, (f a.connection.session).value.2 = some fault → fault.IsOutside) :
    Blames a.connection.fault (a.judged i f).value.connection.fault :=
  a.ask_fault i f ▸ .record _ hf

theorem handle_blames (a : Attempt) (clock : Clock) (e : Event) :
    Blames a.connection.fault (a.handle clock e).value.connection.fault := by
  have hheard (i : Input) : Blames a.connection.fault (a.hear i).value.connection.fault :=
    a.hear_fault i ▸ .refl _
  cases e with
  | response stream part => exact judged_blames a fun _ => Session.onResponse_outside
  | message m => exact judged_blames a fun _ => Session.onMessage_outside
  | error e => exact judged_blames a fun _ => Session.onTransportError_outside
  | dispatch envelope =>
      rw [dispatch_eq]
      exact hheard _
  | active | negotiated | negotiationFailed | upgradeFailed | closed => exact hheard _

theorem Takes.blames {r : Attempt × Intake} (h : Takes clock n a log r) :
    Blames a.connection.fault r.1.connection.fault := by
  induction h with
  | interrupted | emptied => exact .refl _
  | @deserted n a => exact a.handle_blames clock .closed
  | @closed n a rest => exact (a.pop rest).handle_blames clock .closed
  | @event n a e rest log r first other later ih => exact ((a.pop rest).handle_blames clock e).trans ih

theorem listen_fault (a : Attempt) (inputs : List Input) :
    (a.listen inputs).value.connection.fault = a.connection.fault := by
  induction inputs generalizing a with
  | nil => rfl
  | cons i rest ih => exact (ih _).trans (a.hear_fault i)

theorem Polls.blames {r : Attempt × Outcome} (h : Polls a clock gone log r)
    (ho : a.connection.isOpen = true) :
    (r.1.connection.isOpen = true → Blames a.connection.fault r.1.connection.fault)
      ∧ ∀ out, r.2 = .ready out → Blames a.connection.fault out := by
  cases h with
  | idle closed => simp [ho] at closed
  | ended running takes =>
      refine ⟨fun h => by simp [finish, Connection.isOpen] at h, fun out hout => ?_⟩
      exact Outcome.ready.inj hout ▸ takes.blames
  | @onward log mid intake chores crash outcome running takes goes chore flag =>
      refine ⟨fun _ => mid.listen_fault chores ▸ takes.blames, fun out hout => ?_⟩
      cases flag <;> simp at hout

end Attempt

namespace Service

variable {s : Service}

def fault (s : Service) : Option Fault := s.attempt.connection.fault

theorem meet_blames (s : Service) (o : Occasion) (ho : (s.meet o).value.isOpen = true) :
    Blames s.fault (s.meet o).value.fault := by
  cases o with
  | poll clock gone =>
      cases hs : s.isOpen with
      | false => exact absurd (ho.symm.trans (meet_over hs _)) (by decide)
      | true => exact ((s.polled_polls clock gone).blames hs).1 ho
  | tell events plain =>
      simp only [meet, told, Connection.send]
      split <;> exact .refl _
  | ask options request =>
      simp only [meet, asks, Connection.submit]
      cases s.attempt.connection.isOpen <;> exact .refl _
  | drop crashed => simp [meet, dropped, mapConnection, Connection.drop, isOpen, Connection.isOpen] at ho
  | feed | touch | hold | cut | promise => exact .refl _

theorem run_blames (s : Service) (occasions : List Occasion) (ho : (s.run occasions).value.isOpen = true) :
    Blames s.fault (s.run occasions).value.fault := by
  induction occasions generalizing s with
  | nil => exact .refl _
  | cons o rest ih =>
      have hopen : (s.meet o).value.isOpen = true := by
        rw [← Bool.not_eq_false]
        intro hover
        exact absurd (ho.symm.trans (run_over hover rest)) (by decide)
      exact (s.meet_blames o hopen).trans (ih _ ho)

theorem ends_outside (session : Session) (id k : Nat) (closesAtOnce : Bool) (promise : Promise)
    (occasions : List Occasion) (clock : Clock) (gone : Nat → Bool) {fault : Fault}
    (h : (((start id k session closesAtOnce promise).run occasions).value.polled clock gone).value.2
      = .ready (some fault)) : fault.IsOutside := by
  let r := ((start id k session closesAtOnce promise).run occasions).value
  cases ho : r.isOpen with
  | false =>
      have hover : r.attempt.connection.isOpen = false := ho
      simp [polled, Attempt.poll_of_over (a := r.attempt) hover, r] at h
  | true =>
      have hblames := (run_blames _ occasions ho).trans
        (((r.polled_polls clock gone).blames ho).2 (some fault) h)
      exact (hblames.outside fault rfl).resolve_left (by simp [start, Service.fault, Connection.new])

end Service

end HttpSession
