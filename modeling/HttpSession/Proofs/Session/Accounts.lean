import HttpSession.Proofs.Session.Coherence

namespace HttpSession

open Happening (ofActions deeds)

namespace Happening

@[simp] theorem deeds_append (h x : List Happening) : deeds (h ++ x) = deeds h ++ deeds x :=
  List.filterMap_append

@[simp] theorem deeds_ofActions (actions : List Action) : deeds (ofActions actions) = actions := by
  simp [deeds, ofActions, List.filterMap_map, Function.comp_def, action?]

@[simp] theorem deeds_cons_input (i : Input) (h : List Happening) :
    deeds (.input i :: h) = deeds h := rfl

def debts : Happening → List Debt
  | .input i => i.debts
  | .action _ => []

end Happening

def incurred (h : List Happening) : List Debt := h.flatMap Happening.debts

@[simp] theorem incurred_append (h x : List Happening) : incurred (h ++ x) = incurred h ++ incurred x :=
  List.flatMap_append

@[simp] theorem incurred_ofActions (actions : List Action) : incurred (ofActions actions) = [] := by
  simp [incurred, ofActions, List.flatMap_map, Happening.debts]

@[simp] theorem incurred_cons_input (i : Input) (h : List Happening) :
    incurred (.input i :: h) = i.debts ++ incurred h := rfl

theorem Emission.unpaid (sent : Emission) (seq : Nat) (piece : Piece) :
    (sent.actions seq piece).filterMap Action.pays? = [] := by
  simp [Emission.actions, List.filterMap_map, Function.comp_def, Action.pays?]

namespace Traffic

variable {c d e : Traffic} {h x y : List Happening}

def Settles (c : Traffic) (x : List Happening) (d : Traffic) : Prop :=
  Accounts (incurred x ++ c.tracker.debts) (deeds x) d.tracker.debts

namespace Settles

theorem ofActions {actions : List Action} (h : Accounts c.tracker.debts actions d.tracker.debts) :
    Settles c (Happening.ofActions actions) d := by
  simpa [Settles] using h

theorem ofIdle (hi : ∀ y ∈ x, y.isIdle = true) : Settles c x c := by
  have hx : incurred x = [] := List.flatMap_eq_nil_iff.2 fun y hy => by
    cases y with
    | action => rfl
    | input i =>
        have hidle : i.isIdle = true := hi _ hy
        cases i with
        | dispatch => simp [Input.isIdle] at hidle
        | _ => rfl
  have hd : (deeds x).filterMap Action.pays? = [] := List.filterMap_eq_nil_iff.2 fun a ha =>
    Action.unpaid_of_isIdle (hi _ (Happening.action_mem_iff.2 ha))
  rw [Settles, hx]
  exact .of_unpaid hd

theorem trans (hx : Settles c x d) (hy : Settles d y e) : Settles c (x ++ y) e := by
  have hboth := (hx.beside (incurred y)).trans hy
  rw [Settles, Happening.deeds_append, incurred_append]
  refine hboth.perm_owed ?_
  rw [← List.append_assoc]
  exact List.perm_append_comm.append_right _

end Settles

theorem giveUp_settles (hc : c.tracker.InOrder) (seq : Nat) (fault : Fault) :
    Accounts c.tracker.debts (c.giveUp seq fault).actions (c.giveUp seq fault).value.tracker.debts :=
  (Accounts.of_unpaid (Emission.unpaid _ seq .reset)).trans (hc.fail_settles seq fault)

theorem Write.settles (hc : c.tracker.InOrder) {clock : Clock} {gone : Nat → Bool}
    (hw : Write clock gone c x d) : Settles c x d := by
  cases hw with
  | stop a rest given =>
      refine .ofActions (.of_unpaid ?_)
      unfold Writer.abandon
      split
      · rfl
      · dsimp only
        split
        · exact Emission.unpaid _ _ _
        · rfl
  | skip u rest => exact .ofActions (hc.settle_settles u.seq _)
  | launch | proceed | complete => exact .ofActions (.of_unpaid (Emission.unpaid _ _ _))
  | stall => exact .ofActions .refl
  | miss u rest sent fault =>
      exact .ofActions ((Accounts.of_unpaid (Emission.unpaid _ _ _)).trans
        (giveUp_settles (c := (c.queue rest).encode sent.encoder) hc u.seq fault))
  | lose f before behind piece sent fault =>
      exact .ofActions ((Accounts.of_unpaid (Emission.unpaid _ _ _)).trans
        (giveUp_settles (c := (c.encode sent.encoder).fly (before ++ behind)) hc f.seq fault))
  | breakOff f before behind fault =>
      exact .ofActions (giveUp_settles (c := c.fly (before ++ behind)) hc f.seq fault)

theorem enroll_settles (hc : Coherent h c) (options : Options) (request : Request) (sink : Nat)
    (deadline : Option Instant) :
    Accounts (.reply sink :: c.tracker.debts) (c.enroll options request sink deadline).actions
      (c.enroll options request sink deadline).value.tracker.debts := by
  have hnew := Tracker.register_debts hc.seqs_lt sink options.maxLength deadline
  have howed : (c.tracker.register (c.dispatched + 1) sink options.maxLength deadline).debts.Perm
      (.reply sink :: c.tracker.debts) := hnew ▸ List.perm_append_comm
  refine Accounts.perm_owed ?_ howed
  have hnumber (owed : List Debt) : Accounts owed [.enroll (c.dispatched + 1) sink] owed :=
    .of_unpaid rfl
  refine (hnumber _).trans ?_
  dsimp only [enroll]
  split
  · exact Tracker.closeAfterDrain_settles _
  · exact .refl

theorem Move.settles (hc : Coherent h c) (hm : Move c x d) : Settles c x d := by
  cases hm with
  | idle e he => exact .ofIdle he
  | enroll clock options request sink deadline =>
      simpa [Settles, Input.debts] using enroll_settles hc options request sink deadline
  | refuse clock options request sink => exact List.Perm.refl (.reply sink :: c.tracker.debts)
  | receive stream part =>
      have hcoda : (if (c.tracker.receive stream part).value.fault.isSome then
          [Action.call .close] else []).filterMap Action.pays? = [] := by
        split <;> rfl
      simpa [Settles, Input.debts, Traffic.receive]
        using (hc.inOrder.receive_settles stream part).append_unpaid hcoda
  | expire now => exact .ofActions (c.tracker.expire_settles now)
  | wire | sink | feed | fire => exact Accounts.refl
  | write clock gone wrote => exact wrote.settles hc.inOrder

theorem Path.settles (hr : Reached h c) (hp : Path Move c x d) : Settles c x d := by
  induction hp with
  | refl => exact Accounts.refl
  | snoc hp hm ih => exact ih.trans (hm.settles (hr.path hp).coherent)

end Traffic

namespace Session

variable {s : Session} {c : Traffic} {h : List Happening}

theorem Stands.settles (hs : s.Stands h) (i : Input) :
    Accounts (i.debts ++ s.debts) (s.respond i).actions (s.respond i).value.debts := by
  have unestablished (hn : s.traffic? = none) (hafter : (s.respond i).value.debts = []) :
      Accounts (i.debts ++ s.debts) (s.respond i).actions (s.respond i).value.debts := by
    rw [hafter, debts_of_none hn, List.append_nil]
    exact respond_refuses hn i
  cases hs with
  | negotiating phase =>
      refine unestablished (by simp [traffic?, phase]) ?_
      rcases respond_negotiating phase i with ⟨hphase, -⟩ | ⟨hphase, -⟩ | ⟨p, encoder, -, -, ht⟩
      · exact debts_of_none (traffic?_eq_none.2 (.inl hphase))
      · exact debts_of_closed hphase
      · rw [debts_of_traffic ht]
        rfl
  | failed phase | closed _ _ _ phase =>
      exact unestablished (traffic?_eq_none.2 (.inr phase)) (debts_of_closed (respond_closed phase i))
  | established c traffic reached =>
      rcases respond_established traffic i with ⟨d, hd, hpath⟩ | hends
      · have := hpath.settles reached
        simpa [Traffic.Settles, debts_of_traffic hd, debts_of_traffic traffic] using this
      · rw [debts_of_closed hends.closed]
        exact hends.settled

structure IsSound (s : Session) : Prop where
  stands : ∃ h, s.Stands h
  ended : s.transportClosed = true → s.phase = .closed

theorem IsNew.isSound (hs : s.IsNew) : s.IsSound := by
  obtain ⟨-, -, -, hclosed⟩ := hs.start
  exact ⟨⟨_, hs.stands []⟩, fun h => by simp [hclosed] at h⟩

theorem onTransportClosed_ends (hs : s.transportClosed = true → s.phase = .closed)
    (promise : Promise) : (s.onTransportClosed promise).value.phase = .closed := by
  cases h : s.transportClosed with
  | true => rw [onTransportClosed_again h, hs h]
  | false => rw [onTransportClosed_value h]

theorem IsSound.respond (hs : s.IsSound) (i : Input) : (s.respond i).value.IsSound := by
  obtain ⟨⟨h, hstands⟩, hended⟩ := hs
  refine ⟨⟨_, hstands.respond i⟩, fun hclosed => ?_⟩
  by_cases hi : ∃ promise, i = .closed promise
  · obtain ⟨promise, rfl⟩ := hi
    exact onTransportClosed_ends hended promise
  · rw [respond_transportClosed fun promise he => hi ⟨promise, he⟩] at hclosed
    exact respond_closed (hended hclosed) i

theorem IsSound.ofChannel (hs : s.IsSound) (channel : Channel) :
    IsSound { s with channel := channel } := by
  obtain ⟨⟨h, hstands⟩, hended⟩ := hs
  exact ⟨⟨h, hstands.ofChannel channel⟩, hended⟩

end Session

end HttpSession
