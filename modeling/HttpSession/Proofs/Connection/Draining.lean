import HttpSession.Proofs.Connection.Flag
import HttpSession.Proofs.Session.Draining

namespace HttpSession

open Happening (deeds)

def Input.part? : Input → Option (Option StreamId × Part)
  | .response stream part => some (stream, part)
  | _ => none

theorem Input.part?_eq_some {i : Input} {stream : Option StreamId} {part : Part}
    (h : i.part? = some (stream, part)) : i = .response stream part := by
  cases i <;> simp [part?] at h
  obtain ⟨rfl, rfl⟩ := h
  rfl

namespace Service

/-- A connection that takes no request any more and awaits no response has asked its transport to close,
until the transport has closed. It asks while a response is awaited only when it is made to hang up;
otherwise everybody who was handed in has been answered by then. -/
theorem closes_when_drained {builder : Builder} (built : builder.IsBuilt) {clock : Clock}
    {channel : Channel} {speaksHttp1 : Bool} {session : Session}
    (hb : builder.session clock channel speaksHttp1 = .ok session) (id k : Nat) (closesAtOnce : Bool)
    (promise : Promise) (occasions : List Occasion) :
    let first := start id k session closesAtOnce promise
    let r := first.run occasions
    (r.value.life ≠ .dropped → r.value.session.transportClosed = false →
        r.value.session.takesNone = true → r.value.session.hasUnfinished = false →
        .call .close ∈ r.actions)
      ∧ ∀ before i behind xs ys, r.inputs = before ++ i :: behind →
        ((session.after before).respond i).actions = xs ++ .call .close :: ys →
        (session.after before).HangsUp i
          ∨ Accounts ((before ++ [i]).flatMap Input.debts) (deeds (session.history before) ++ xs) [] := by
  intro first r
  have hnew := Builder.session_isNew hb
  have hsession : r.value.session = session.after r.inputs :=
    session_of_run id k closesAtOnce promise occasions
  constructor
  · intro hlife hopen hnone hquiet
    have hupright : r.value.IsUpright r.inputs :=
      (start_isUpright hnew id k closesAtOnce promise).run occasions
    have hroom : 0 < session.ceiling := by
      rw [Builder.session_ceiling hb]
      exact built.bounds.1
    rw [hsession] at hopen hnone hquiet
    have htold := hnew.told hroom hnone hquiet hopen (hupright.kept hlife)
    exact (first.run_hears occasions).said.subset htold
  · intro before i behind xs ys _ hclose
    exact or_iff_not_imp_left.2 fun hi => hnew.paid_of_close hi hclose

def served : List Part := [.head ⟨200, .empty⟩, .finish]

def drained : List Occasion :=
  agreed ++ [.ask .default .bare, .poll (.steady 0) fun _ => false,
    .tell (served.map (.response none)) (by simp [served, Event.debts]), .poll (.steady 0) fun _ => false]

theorem closes_when_drained_full :
    let first := start 0 0 (.blank 1) false .new
    let r := first.run drained
    (r.value.session.takesNone = true ∧ .call .close ∈ r.actions)
      ∧ ∃ before behind : List Input, r.inputs = before ++ .response none .finish :: behind
        ∧ ((Session.blank 1).after before).hasUnfinished = true
        ∧ Accounts ((before ++ [Input.response none .finish]).flatMap Input.debts)
          (deeds ((Session.blank 1).history before) ++ [.answer 0 (.complete ⟨⟨200, .empty⟩, [], none⟩)]) [] := by
  intro first r
  obtain ⟨b, built, hb⟩ := built_blank 1 (by decide)
  obtain ⟨htold, hpaid⟩ := closes_when_drained built hb 0 0 false .new drained
  have hnone : r.value.session.takesNone = true := by decide +kernel
  have hplace : r.inputs[9]?.bind Input.part? = some (none, .finish) := by decide +kernel
  obtain ⟨i, behind, hsplit, hpart⟩ := split_at hplace
  obtain rfl := Input.part?_eq_some hpart
  refine ⟨⟨hnone, htold (by decide +kernel) (by decide +kernel) hnone (by decide +kernel)⟩,
    r.inputs.take 9, behind, hsplit, by decide +kernel, ?_⟩
  refine (hpaid _ (.response none .finish) behind [.answer 0 (.complete ⟨⟨200, .empty⟩, [], none⟩)] [] hsplit
    (by decide +kernel)).resolve_left fun hup => ?_
  cases hup with
  | violation stream part wrong => exact absurd wrong (by decide +kernel)

end Service

end HttpSession
