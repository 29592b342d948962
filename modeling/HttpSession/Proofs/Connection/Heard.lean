import HttpSession.Proofs.Connection.Accounts

namespace HttpSession

open Happening (ofActions deeds)

namespace Happening

def worked (h : List Happening) : List Action := (deeds h).filter Action.isDeed

theorem worked_input (i : Input) (actions : List Action) :
    worked (.input i :: ofActions actions) = actions.filter Action.isDeed := by
  simp [worked]

end Happening

open Happening (worked)

theorem Channel.after_of_notMem (c : Channel) {actions : List Action} (h : .call .close ∉ actions) :
    c.after actions = c := by
  unfold after
  induction actions with
  | nil => rfl
  | cons a rest ih =>
      rw [List.mem_cons, not_or] at h
      rw [List.foldl_cons, if_neg (Ne.symm h.1), ih h.2]

namespace Session

theorem abandon_undone (s : Session) (reason : String) :
    ∀ a ∈ (s.abandon reason).actions, a.isDeed = false := by
  intro a ha
  cases ht : s.tracker? with
  | none => simp [abandon, ht] at ha
  | some t =>
      obtain ⟨p, -, rfl⟩ : ∃ p ∈ t.pending, p.fail (Fault.dispatchGone reason) = a := by
        simpa [abandon, ht, Tracker.failAll] using ha
      rfl

theorem step_of_undone {s : Session} {i : Input}
    (h : (s.respond i).actions.filter Action.isDeed = []) : s.step i = s.respond i := by
  have hclose : .call .close ∉ (s.respond i).actions := fun hc =>
    List.filter_eq_nil_iff.1 h _ hc rfl
  simp only [step, felt, Channel.after_of_notMem _ hclose]

end Session

theorem Attempt.drop_hears (a : Attempt) (crashed : Bool) :
    Hears a [.dropped (Connection.reason crashed)] (a.connection.drop crashed).log
      { a with connection := (a.connection.drop crashed).value } := by
  have hundone : (a.connection.session.respond
      (.dropped (Connection.reason crashed))).actions.filter Action.isDeed = [] :=
    List.filter_eq_nil_iff.2 fun x hx => by simp [a.connection.session.abandon_undone _ x hx]
  have hheard : Hears a [.dropped (Connection.reason crashed)]
      (.input (.dropped (Connection.reason crashed))
        :: (a.connection.session.respond (.dropped (Connection.reason crashed))).actions.map .action)
      { a with connection := (a.connection.drop crashed).value } := by
    refine ⟨by simp, ?_, by simp [Entry.happenings_actions], by simp [Entry.NoticesOnly], rfl, rfl, ?_⟩
    · rw [Session.after_cons, Session.after_nil, Session.step_of_undone hundone]
      rfl
    · rw [Entry.actions_input, Entry.actions_actions]
      exact (Promise.heard_undone hundone _).symm
  have hnotices : Entry.NoticesOnly (a.connection.leftovers.map .notice ++ [.dealing .shut]) := by
    simpa using leftovers_notices a.connection
  have hmore := hheard.aside rfl rfl rfl rfl (by simp) (by simp) hnotices
  simpa [Connection.drop, Session.respond] using hmore

namespace Service

variable {s : Service} {t : Logged Service}

def session (s : Service) : Session := s.attempt.connection.session

/-- The session hears the inputs of this log and nothing else, and the connection does what comes of it and
nothing else. -/
structure Hears (s : Service) (t : Logged Service) : Prop where
  session : t.value.session = s.session.after t.inputs
  happenings : Entry.happenings t.log = s.session.history t.inputs
  notices : Entry.NoticesOnly t.log

namespace Hears

theorem refl (s : Service) : s.Hears (pure s) := ⟨rfl, rfl, by simp⟩

theorem bind {f : Service → Logged Service} (hx : s.Hears t) (hy : t.value.Hears (f t.value)) :
    s.Hears (t >>= f) where
  session := by rw [Logged.value_bind, Logged.inputs_bind, hy.session, hx.session, Session.after_append]
  happenings := by
    rw [Logged.log_bind, Logged.inputs_bind, Entry.happenings_append, hx.happenings, hy.happenings,
      hx.session, Session.history_append]
  notices := Entry.noticesOnly_append.2 ⟨hx.notices, hy.notices⟩

theorem ofAttempt {log : List Entry} {next : Service}
    (h : s.attempt.Hears (Entry.inputs log) log next.attempt) : s.Hears ⟨next, log⟩ :=
  ⟨h.session, h.happenings, h.notices⟩

theorem said (h : s.Hears t) : (Happening.deeds (s.session.history t.inputs)).Sublist t.actions :=
  h.happenings ▸ Entry.deeds_sublist t.log

theorem filterMap {β : Type} {f : Action → Option β} (h : s.Hears t)
    (hf : ∀ a, a.isNotice = true → f a = none) :
    t.actions.filterMap f = (Happening.deeds (s.session.history t.inputs)).filterMap f := by
  rw [← h.happenings]
  exact Entry.filterMap_actions h.notices hf

theorem filter {p : Action → Bool} (h : s.Hears t) (hp : ∀ a, a.isNotice = true → p a = false) :
    t.actions.filter p = (Happening.deeds (s.session.history t.inputs)).filter p := by
  rw [← h.happenings]
  exact Entry.filter_actions h.notices hp

theorem deeds (h : s.Hears t) : t.actions.filter Action.isDeed = worked (s.session.history t.inputs) :=
  h.filter Action.isDeed_of_isNotice

end Hears

theorem touched_quiet (session : Session) {i : Input} (h : i.isOuter = true) :
    (session.respond i).actions = [] := by
  cases i <;> simp [Input.isOuter] at h <;> rfl

theorem quiet_hears {i : Input} {next : Service} (hquiet : (s.session.respond i).actions = [])
    (hs : next.session = (s.session.respond i).value) : s.Hears ⟨next, [.input i]⟩ := by
  refine ⟨?_, ?_, by simp⟩
  · rw [hs]
    exact congrArg Traced.value (Session.step_of_undone (by simp [hquiet])).symm
  · simp [Logged.inputs, hquiet]

theorem meet_hears (s : Service) (o : Occasion) : s.Hears (s.meet o) := by
  cases o with
  | poll clock gone =>
      rw [meet_poll]
      exact .ofAttempt (s.polled_polls clock gone).hears
  | drop crashed =>
      have hheard := s.attempt.drop_hears crashed
      have hservice : s.Hears ⟨s.mapConnection fun _ => (s.attempt.connection.drop crashed).value,
          (s.attempt.connection.drop crashed).log⟩ :=
        .ofAttempt (hheard.heard ▸ hheard)
      simpa [meet, dropped, bind, pure] using hservice
  | ask options request =>
      simp only [meet, asks, Connection.submit]
      split
      · exact ⟨rfl, rfl, by simp [Connection.post]⟩
      · exact ⟨rfl, rfl, by simp [Envelope.refusal, Action.isNotice]⟩
  | tell events plain =>
      simp only [meet, told, Connection.send]
      split
      · refine ⟨?_, ?_, ?_⟩ <;> simp [Connection.post, Logged.inputs, Entry.NoticesOnly]
        rfl
      · exact ⟨rfl, rfl, by simp⟩
  | touch i outer => exact quiet_hears (touched_quiet s.session outer) rfl
  | feed source frames ended => exact quiet_hears rfl rfl
  | hold | cut | promise => exact ⟨rfl, rfl, by simp [meet]⟩

theorem run_hears (s : Service) (occasions : List Occasion) : s.Hears (s.run occasions) := by
  induction occasions generalizing s with
  | nil => exact .refl s
  | cons o rest ih => exact (s.meet_hears o).bind (ih _)

end Service

end HttpSession
