import HttpSession.Proofs.Connection.Heard
import HttpSession.Proofs.Session.Establishment

namespace HttpSession

namespace Session

variable {s : Session} {inputs : List Input}

theorem after_transportClosed (h : ∀ promise, .closed promise ∉ inputs) :
    (s.after inputs).transportClosed = s.transportClosed := by
  induction inputs generalizing s with
  | nil => rfl
  | cons i rest ih =>
      rw [after_cons, ih fun promise hm => h promise (List.mem_cons_of_mem _ hm)]
      exact respond_transportClosed fun promise he => h promise (he ▸ List.mem_cons_self)

theorem farewell_mem (h : s.transportClosed = false) (promise : Promise) :
    s.farewell promise ∈ (s.onTransportClosed promise).actions := by
  have hv := s.onTransportClosed_verdicts promise
  rw [verdict, if_neg (by simp [h])] at hv
  exact (List.mem_filter.1 (hv ▸ List.mem_singleton_self _)).1

theorem respond_fallback (h : s.status.fallback = true) (i : Input) :
    (s.respond i).value.status.fallback = true := by
  cases i with
  | negotiated promise reachable p =>
      by_cases hn : s.phase = .negotiating
      · obtain ⟨fault, he⟩ | ⟨encoder, -, hv, -⟩ := onNegotiated_cases hn promise reachable p
        · rw [respond, he, onNegotiationFailed_value]
          exact h
        · rw [respond, hv]
          exact h
      · rwa [respond, onNegotiated_ignored hn]
  | closed promise =>
      cases hc : s.transportClosed with
      | true => rwa [respond, onTransportClosed_again hc]
      | false => rwa [respond, onTransportClosed_value hc]
  | dispatch clock options request sink =>
      have hsame := deadlineOf_snd s clock options
      simp only [respond, Traced.value_bind, Traced.value_pure, Session.dispatch]
      split
      · split
        · generalize s.deadlineOf clock options = due at hsame ⊢
          rw [hsame]
          split <;> exact h
        · exact h
      · exact h
  | activate | deactivate | publish => exact h
  | markFallback => rfl
  | _ => exact (congrArg Status.fallback (respond_sameStatus s rfl).status).trans h

end Session

namespace Attempt

variable {a b : Attempt} {actions : List Action} {inputs : List Input} {log : List Entry} {clock : Clock}
  {gone : Nat → Bool} {n : Nat}

theorem input_closed {e : Event} {promise : Promise} (h : a.input clock e = .closed promise) :
    e = .closed := by
  cases e <;> simp [input] at h
  rfl

theorem Chores.open {s : Session} {chores : List Input} {crash : Option String}
    (h : Chores s clock gone chores crash) (promise : Promise) : .closed promise ∉ chores := by
  cases h <;> simp

theorem Works.open (h : Works a inputs log b) (hn : ∀ promise, .closed promise ∉ inputs) :
    b.connection.session.transportClosed = a.connection.session.transportClosed := by
  rw [h.session, Session.after_transportClosed hn]

/-- What a connection leaves behind when the transport is closed: the promise is settled, or the
connector was asked for another connection. -/
def TakesLeave (a : Attempt) (actions : List Action) : Prop :=
  a.promise.settled = true
    ∨ a.connection.session.status.fallback = true ∧ ∃ x ∈ actions, x.isConnect = true

theorem TakesLeave.mono {more : List Action} (h : a.TakesLeave actions)
    (hsub : actions ⊆ more) : a.TakesLeave more :=
  h.imp_right fun ⟨hf, x, hx, hc⟩ => ⟨hf, x, hsub hx, hc⟩

theorem close_leaves (h : a.connection.session.transportClosed = false) :
    a.close.value.connection.session.isActive = false
      ∧ a.close.value.TakesLeave (Entry.actions a.close.log) := by
  have hclose := (hear_works a (.closed a.promise)).toHears
  change Hears a _ a.close.log a.close.value at hclose
  have hsession : a.close.value.connection.session
      = (a.connection.session.step (.closed a.promise)).value := hclose.session
  have hsaid : a.connection.session.farewell a.promise ∈ Entry.actions a.close.log := by
    rw [close, hear_actions]
    exact Session.farewell_mem h a.promise
  refine ⟨?_, ?_⟩
  · rw [hsession]
    exact (Session.closed_flag _ _).1.trans (by rw [h]; rfl)
  · cases hf : a.connection.session.status.fallback with
    | true =>
        rw [Session.farewell, if_pos hf] at hsaid
        refine .inr ⟨?_, _, hsaid, rfl⟩
        rw [hsession]
        exact Session.respond_fallback hf (.closed a.promise)
    | false =>
        rw [Session.farewell, if_neg (by simp [hf])] at hsaid
        refine .inl ?_
        rw [hclose.promise]
        exact Promise.settled_of_mem hsaid (fun p => p.settle_settled _) _

theorem Takes.leaves {r : Attempt × Intake} (h : Takes clock n a log r)
    (unclosed : a.connection.session.transportClosed = false) :
    (r.2 = .ended → r.1.connection.session.isActive = false ∧ r.1.TakesLeave (Entry.actions log))
      ∧ (r.2 ≠ .ended → r.1.connection.session.transportClosed = false) := by
  induction h with
  | interrupted | emptied => exact ⟨by simp, fun _ => unclosed⟩
  | deserted empty unreachable => exact ⟨fun _ => close_leaves unclosed, by simp⟩
  | @closed n a rest first =>
      exact ⟨fun _ => close_leaves (a := a.pop rest) unclosed, by simp⟩
  | @event n a e rest log r first other later ih =>
      have hopen := ((a.pop rest).handle_works clock e).open fun promise hm =>
        other (input_closed (List.mem_singleton.1 hm).symm)
      obtain ⟨hended, hopened⟩ := ih (hopen.trans unclosed)
      refine ⟨fun hend => ?_, hopened⟩
      obtain ⟨hdown, hleft⟩ := hended hend
      exact ⟨hdown, hleft.mono (by simp)⟩

theorem listen_append (a : Attempt) (xs ys : List Input) :
    (a.listen (xs ++ ys)).value = ((a.listen xs).value.listen ys).value := by
  induction xs generalizing a with
  | nil => rfl
  | cons i rest ih => exact ih _

theorem listen_published (a : Attempt) (inputs : List Input) :
    ∃ w : Session, (a.listen (inputs ++ [.publish])).value.connection.session = w.publish := by
  rw [listen_append]
  exact ⟨_, (hear_works (a.listen inputs).value .publish).session⟩

theorem Polls.leaves {r : Attempt × Outcome} (h : Polls a clock gone log r)
    (ho : a.connection.life = .running) (unclosed : a.connection.session.transportClosed = false) :
    let c := r.1.connection
    (c.life = .finished ∧ c.session.isActive = false ∧ (∃ fault, r.2 = .ready fault)
        ∧ r.1.TakesLeave (Entry.actions log))
      ∨ c.life = .running ∧ c.session.transportClosed = false ∧ (∀ fault, r.2 ≠ .ready fault)
        ∧ ∀ woken, r.2 = .pending woken → ∃ w : Session, c.session = w.publish := by
  cases h with
  | idle closed => simp [Connection.isOpen, ho] at closed
  | ended running takes =>
      obtain ⟨hdown, hleft⟩ := (takes.leaves unclosed).1 rfl
      exact .inl ⟨rfl, hdown, ⟨_, rfl⟩, hleft.mono (by simp)⟩
  | @onward log mid intake chores crash outcome running takes goes chore flag =>
      have hworks := listen_works mid chores
      have hopen := hworks.open chore.open
      refine .inr ⟨hworks.life.trans (takes.life.trans ho), hopen.trans ((takes.leaves unclosed).2 goes), ?_, ?_⟩
      · cases flag <;> simp
      · intro woken hp
        cases flag with
        | crashed text => simp at hp
        | pending =>
            cases chore with
            | published => exact listen_published mid [.keepTime clock, .write clock gone]

theorem Polls.ends {r : Attempt × Outcome} (h : Polls a clock gone log r)
    (hr : a.connection.life = .running → a.connection.session.transportClosed = false)
    (hf : a.connection.life = .finished → a.TakesLeave actions) :
    (r.1.connection.life = .running → r.1.connection.session.transportClosed = false)
      ∧ (r.1.connection.life = .finished → r.1.TakesLeave (actions ++ Entry.actions log)) := by
  by_cases ho : a.connection.life = .running
  · rcases h.leaves ho (hr ho) with ⟨hdone, -, -, hleave⟩ | ⟨hstill, hopen, -⟩
    · exact ⟨fun h => absurd (hdone.symm.trans h) (by decide),
        fun _ => hleave.mono (List.subset_append_right _ _)⟩
    · exact ⟨fun _ => hopen, fun h => absurd (hstill.symm.trans h) (by decide)⟩
  · cases h with
    | idle closed => exact ⟨fun h => absurd h ho, fun h => (hf h).mono (List.subset_append_left _ _)⟩
    | ended running | onward running => simp [Connection.isOpen, ho] at running

end Attempt

end HttpSession
