import HttpSession.Proofs.Connection.Answers
import HttpSession.Proofs.Connection.Ending

namespace HttpSession

open Happening (ofActions deeds worked)

namespace Session

variable {s : Session} {inputs : List Input}

theorem publish_flag {w : Writer} {t : Tracker} (h : s.phase = .established w t)
    (hd : t.isClosing = true) : s.publish.isActive = false := by
  simp [publish, isActive, tracker?, h, hd]

theorem offered_protocol {i : Input} (h : .offer ∈ (s.respond i).actions) :
    (s.respond i).value.protocol ≠ none := by
  obtain ⟨promise, p, spoken, rfl, hn, hspeak⟩ := offer_of_verdict (mem_verdict h rfl)
  have hspeak : s.cancelNegotiationTimeout.speak p = .ok spoken := hspeak
  simp [respond, onNegotiated, hn, hspeak, protocol]

theorem IsNew.protocol_of_offered (hs : s.IsNew) (h : .offer ∈ deeds (s.history inputs)) :
    (s.after inputs).protocol ≠ none := by
  induction inputs using List.reverseRecOn with
  | nil => simp [deeds] at h
  | append_singleton inputs i ih =>
      rw [after_concat]
      rw [history_append, Happening.deeds_append, List.mem_append] at h
      rcases h with h | h
      · have hp := ih h
        have hn : (s.after inputs).phase ≠ .negotiating := fun hn => hp (hs.untouched hn).2
        change ((s.after inputs).respond i).value.protocol ≠ none
        rwa [respond_protocol hn]
      · exact offered_protocol (by simpa using h)

theorem IsNew.late_of_raised (hs : s.IsNew) (room : 0 < s.ceiling)
    (offered : .offer ∈ deeds (s.history inputs)) (refuses : ∀ more, ((s.after inputs).after more).Refuses)
    (flag : (s.after inputs).isActive = true)
    (synced : ∀ w t, (s.after inputs).phase = .established w t → t.isClosing = false)
    (kept : (s.after inputs).transportClosed = false ∧ ∀ reason, .dropped reason ∉ inputs) :
    s.HeardLate inputs := by
  have hprotocol := hs.protocol_of_offered offered
  have hstarted : (s.after inputs).phase ≠ .negotiating := fun hn => hprotocol (hs.untouched hn).2
  have hnone := (hs.takesNone_iff hstarted).2 refuses
  cases hphase : (s.after inputs).phase with
  | negotiating => exact absurd hphase hstarted
  | closed => exact hs.late_of_closed hphase hprotocol kept.1 kept.2
  | established w t =>
      have hfull : (s.after inputs).ceiling ≤ (s.after inputs).dispatched := by
        simpa [takesNone, hphase, synced w t hphase] using hnone
      exact hs.late_of_exhausted room ⟨_, traffic?_of_phase hphase, hfull⟩ flag

end Session

namespace Service

variable {s : Service} {inputs : List Input}

def life (s : Service) : Life := s.attempt.connection.life

structure IsUpright (s : Service) (inputs : List Input) : Prop where
  sound : s.attempt.IsSound
  running : s.life = .running → s.session.transportClosed = false
  finished : s.life = .finished → s.session.isActive = false
  kept : s.life ≠ .dropped → ∀ reason, .dropped reason ∉ inputs

theorem inputs_kept (s : Service) {o : Occasion} (ho : ∀ crashed, o ≠ .drop crashed) (reason : String) :
    .dropped reason ∉ (s.meet o).inputs := by
  rw [meet_inputs]
  cases o with
  | drop crashed => exact absurd rfl (ho crashed)
  | poll clock gone =>
      intro hi
      rcases (s.polled_polls clock gone).input_of _ hi with ⟨b, e, he⟩ | he | he | he
      · cases e <;> simp [Attempt.input] at he
      all_goals simp at he
  | touch i outer =>
      simp only [List.mem_singleton]
      rintro rfl
      simp [Input.isOuter] at outer
  | _ => simp

theorem IsUpright.still (hs : s.IsUpright inputs) {t : Service} (ht : t.attempt.IsSound)
    (hlife : t.life = s.life) (hclosed : t.session.transportClosed = s.session.transportClosed)
    (hflag : t.session.isActive = true → s.session.isActive = true) {more : List Input}
    (hmore : ∀ reason, .dropped reason ∉ more) : t.IsUpright (inputs ++ more) where
  sound := ht
  running h := hclosed.trans (hs.running (hlife ▸ h))
  finished h := by
    have hdown := hs.finished (hlife ▸ h)
    rw [Bool.eq_false_iff]
    exact fun hup => absurd ((hflag hup).symm.trans hdown) (by decide)
  kept h reason := by
    rw [List.mem_append, not_or]
    exact ⟨hs.kept (hlife ▸ h) reason, hmore reason⟩

theorem IsUpright.meet (hs : s.IsUpright inputs) (o : Occasion) :
    (s.meet o).value.IsUpright (inputs ++ (s.meet o).inputs) := by
  have hsound := (meet_settles hs.sound o).1
  cases o with
  | drop crashed =>
      exact ⟨hsound, (nomatch ·), (nomatch ·), fun h => absurd rfl h⟩
  | poll clock gone =>
      have hkept := inputs_kept s (o := .poll clock gone) (by simp)
      have hpolls := s.polled_polls clock gone
      cases hlife : s.life with
      | running =>
          rcases hpolls.leaves hlife (hs.running hlife) with ⟨hdone, hdown, -, -⟩ | ⟨hlive, hopen, -, -⟩
          · refine ⟨hsound, fun h => ?_, fun _ => hdown, fun _ reason => ?_⟩
            · exact absurd (hdone.symm.trans h) (by decide)
            · simp [hs.kept (by simp [hlife]), hkept]
          · refine ⟨hsound, fun _ => hopen, fun h => ?_, fun _ reason => ?_⟩
            · exact absurd (hlive.symm.trans h) (by decide)
            · simp [hs.kept (by simp [hlife]), hkept]
      | _ =>
          have hover : s.attempt.connection.isOpen = false := by
            have hlife : s.attempt.connection.life = _ := hlife
            simp [Connection.isOpen, hlife]
          have hsame : (s.meet (.poll clock gone)).value.attempt = s.attempt := (hpolls.of_over hover).1
          exact hs.still hsound (congrArg (·.connection.life) hsame)
            (congrArg (·.connection.session.transportClosed) hsame)
            (fun h => (congrArg (·.connection.session.isActive) hsame).symm.trans h) hkept
  | touch i outer =>
      refine hs.still hsound rfl ?_ (fun h => ?_) (inputs_kept s (by simp))
      · exact Session.respond_transportClosed (by rintro promise rfl; simp [Input.isOuter] at outer)
      · have hraised : (s.session.respond i).value.isActive = true := h
        rcases Session.respond_raised hraised with rfl | ⟨hup, -⟩ | ⟨hup, -⟩
        · simp [Input.isOuter] at outer
        · exact hup
        · exact hup
  | feed source frames ended =>
      have hstatus := Session.mapWriter_sameStatus s.session fun w => w.feed source frames ended
      have hsame := Session.mapWriter_sameOutsideTraffic s.session fun w => w.feed source frames ended
      refine hs.still hsound rfl hsame.transportClosed (fun h => ?_) (inputs_kept s (by simp))
      exact (congrArg Status.active hstatus.status).symm.trans h
  | ask options request =>
      have hsame : (s.meet (.ask options request)).value.life = s.life
          ∧ (s.meet (.ask options request)).value.session = s.session := by
        simp only [Service.meet, asks, Connection.submit]
        cases s.attempt.connection.isOpen <;> exact ⟨rfl, rfl⟩
      exact hs.still hsound hsame.1 (by rw [hsame.2]) (by rw [hsame.2]; exact id)
        (inputs_kept s (by simp))
  | tell events plain =>
      have hsame : (s.meet (.tell events plain)).value.life = s.life
          ∧ (s.meet (.tell events plain)).value.session = s.session := by
        simp only [Service.meet, told, Connection.send]
        cases s.attempt.connection.isOpen <;> simp [mapConnection, life, session, Connection.post]
      exact hs.still hsound hsame.1 (by rw [hsame.2]) (by rw [hsame.2]; exact id)
        (inputs_kept s (by simp))
  | hold handles | cut | promise =>
      exact hs.still hsound rfl rfl id (inputs_kept s (by simp))

theorem IsUpright.run (hs : s.IsUpright inputs) (occasions : List Occasion) :
    (s.run occasions).value.IsUpright (inputs ++ (s.run occasions).inputs) := by
  induction occasions generalizing s inputs with
  | nil => simpa [Service.run] using hs
  | cons o rest ih => simpa [Service.run] using ih (hs.meet o)

theorem start_isUpright {session : Session} (hs : session.IsNew) (id k : Nat) (closesAtOnce : Bool)
    (promise : Promise) : (start id k session closesAtOnce promise).IsUpright [] :=
  ⟨start_isSound hs id k closesAtOnce promise, fun _ => hs.start.2.2.2, (nomatch ·), by simp⟩

end Service

namespace Builder

inductive IsBuilt : Builder → Prop
  | new : IsBuilt .new
  | withTimer {b : Builder} (h : IsBuilt b) (timer : Timer) : IsBuilt (b.withTimer timer)
  | withNegotiationTimeout {b : Builder} (h : IsBuilt b) (span : Option Span) :
      IsBuilt (b.withNegotiationTimeout span)
  | withCeiling {b c : Builder} (h : IsBuilt b) (ceiling : Nat)
      (chosen : b.withCeiling ceiling = .ok c) : IsBuilt c

theorem IsBuilt.bounds {b : Builder} (h : b.IsBuilt) : 0 < b.ceiling ∧ b.ceiling ≤ maxDispatches := by
  induction h with
  | new => decide
  | withTimer _ timer ih => exact ih
  | withNegotiationTimeout _ span ih => exact ih
  | withCeiling _ ceiling chosen =>
      unfold Builder.withCeiling at chosen
      split at chosen
      · obtain rfl := Except.ok.inj chosen
        assumption
      · simp at chosen

theorem session_settings {builder : Builder} {clock : Clock} {channel : Channel} {speaksHttp1 : Bool}
    {session : Session} (hb : builder.session clock channel speaksHttp1 = .ok session) :
    session.timer = builder.timer ∧ session.ceiling = builder.ceiling := by
  unfold Builder.session at hb
  cases hspan : builder.negotiationTimeout.check builder.timer "negotiation_timeout" with
  | error text => simp [hspan, bind, Except.bind] at hb
  | ok span =>
      simp only [hspan, bind, Except.bind, Session.new] at hb
      split at hb
      · simp at hb
      · obtain rfl := Except.ok.inj hb
        exact ⟨rfl, rfl⟩

theorem session_ceiling {builder : Builder} {clock : Clock} {channel : Channel} {speaksHttp1 : Bool}
    {session : Session} (hb : builder.session clock channel speaksHttp1 = .ok session) :
    session.ceiling = builder.ceiling :=
  (session_settings hb).2

end Builder

namespace Service

variable {s : Service}

theorem session_of_run {session : Session} (id k : Nat) (closesAtOnce : Bool) (promise : Promise)
    (occasions : List Occasion) :
    let r := (start id k session closesAtOnce promise).run occasions
    r.value.session = session.after r.inputs :=
  (run_hears _ occasions).session

theorem inputs_concat (s : Service) (occasions : List Occasion) (o : Occasion) :
    (s.run (occasions ++ [o])).inputs
      = (s.run occasions).inputs ++ ((s.run occasions).value.meet o).inputs := by
  rw [run_concat, Logged.inputs_bind]

theorem value_concat (s : Service) (occasions : List Occasion) (o : Occasion) :
    (s.run (occasions ++ [o])).value = ((s.run occasions).value.meet o).value := by
  rw [run_concat, Logged.value_bind]

theorem session_met {session : Session} (id k : Nat) (closesAtOnce : Bool) (promise : Promise)
    (occasions : List Occasion) (o : Occasion) :
    let first := start id k session closesAtOnce promise
    ((first.run occasions).value.meet o).value.session
      = session.after (first.run (occasions ++ [o])).inputs := by
  intro first
  rw [← value_concat]
  exact session_of_run id k closesAtOnce promise (occasions ++ [o])

theorem refuses_for_good {session : Session} (hs : session.IsNew) (id k : Nat) (closesAtOnce : Bool)
    (promise : Promise) {occasions : List Occasion} {o : Occasion}
    (h : (((start id k session closesAtOnce promise).run occasions).value.meet o).value.session.takesNone
      = true) (more : List Input) :
    ((((start id k session closesAtOnce promise).run occasions).value.meet o).value.session.after
      more).Refuses := by
  rw [session_met] at h ⊢
  exact Session.refuses_of_takesNone (hs.takesNone_lasts h more)

theorem running_of_pending {clock : Clock} {gone : Nat → Bool} {woken : Bool}
    (h : (s.polled clock gone).value.2 = .pending woken) : s.life = .running := by
  by_contra hlife
  have hover : s.attempt.connection.isOpen = false := by
    have hlife : s.attempt.connection.life ≠ .running := hlife
    simp [Connection.isOpen, hlife]
  simp [polled, Attempt.poll_of_over hover] at h

theorem offered_of_run {session : Session} (id k : Nat) (closesAtOnce : Bool) (promise : Promise)
    {occasions : List Occasion} :
    let r := (start id k session closesAtOnce promise).run occasions
    .offer ∈ r.actions → .offer ∈ deeds (session.history r.inputs) := by
  intro r offered
  have hdeed : .offer ∈ r.actions.filter Action.isDeed := List.mem_filter.2 ⟨offered, rfl⟩
  rw [(run_hears _ occasions).deeds] at hdeed
  exact (List.mem_filter.1 hdeed).1

/-- A session whose flag is up at the end of a poll although it refuses whatever may come has heard
of it too late. The flag is down for good once the connection has returned; who drops the connection
before leaves the flag as it was. -/
theorem flag_down {builder : Builder} (built : builder.IsBuilt) {opened : Clock} {channel : Channel}
    {speaksHttp1 : Bool} {session : Session}
    (hb : builder.session opened channel speaksHttp1 = .ok session) (id k : Nat) (closesAtOnce : Bool)
    (promise : Promise) (occasions : List Occasion) :
    let first := start id k session closesAtOnce promise
    let r := first.run occasions
    (∀ clock gone woken, (r.value.polled clock gone).value.2 = .pending woken →
        let next := first.run (occasions ++ [.poll clock gone])
        .offer ∈ next.actions → (∀ more, (next.value.session.after more).Refuses) →
          next.value.session.isActive = true → session.HeardLate next.inputs)
      ∧ (∀ clock gone fault, r.value.life = .running →
        (r.value.polled clock gone).value.2 = .ready fault →
        (r.value.meet (.poll clock gone)).value.life = .finished)
      ∧ (r.value.life = .finished → r.value.session.isActive = false)
      ∧ ∀ crashed, (r.value.meet (.drop crashed)).value.session.isActive = r.value.session.isActive := by
  intro first r
  have hnew := Builder.session_isNew hb
  have hupright : r.value.IsUpright r.inputs :=
    (start_isUpright hnew id k closesAtOnce promise).run occasions
  refine ⟨?_, fun clock gone fault hlife hp => ?_, hupright.finished, fun crashed => ?_⟩
  · intro clock gone woken hp next offered hrefuses hflag
    have hlife := running_of_pending hp
    have hvalue := first.value_concat occasions (.poll clock gone)
    rcases (r.value.polled_polls clock gone).leaves hlife (hupright.running hlife) with
      ⟨-, -, ⟨fault, hready⟩, -⟩ | ⟨hlive, hopen, -, hpublished⟩
    · exact absurd (hp.symm.trans hready) (by simp)
    · obtain ⟨w, hw⟩ := hpublished woken hp
      have hw : next.value.session = w.publish := by rw [hvalue]; exact hw
      have hopen : next.value.session.transportClosed = false := by rw [hvalue]; exact hopen
      have hs : next.value.session = session.after next.inputs :=
        session_of_run id k closesAtOnce promise (occasions ++ [.poll clock gone])
      have hoffered : .offer ∈ deeds (session.history next.inputs) :=
        offered_of_run id k closesAtOnce promise offered
      have hroom : 0 < session.ceiling := by
        rw [Builder.session_ceiling hb]
        exact built.bounds.1
      have hkept (reason : String) : .dropped reason ∉ next.inputs := by
        have hlife : (r.value.meet (.poll clock gone)).value.life = .running := hlive
        simp only [next, inputs_concat]
        exact (hupright.meet (.poll clock gone)).kept (by simp [hlife]) reason
      have hsynced (w' : Writer) (t : Tracker) (hphase : next.value.session.phase = .established w' t) :
          t.isClosing = false := by
        rw [Bool.eq_false_iff]
        intro hclosing
        have hdown : next.value.session.isActive = false := by
          rw [hw] at hphase ⊢
          exact Session.publish_flag hphase hclosing
        exact absurd (hflag.symm.trans hdown) (by decide)
      rw [hs] at hrefuses hflag hsynced hopen
      exact hnew.late_of_raised hroom hoffered hrefuses hflag hsynced ⟨hopen, hkept⟩
  · rcases (r.value.polled_polls clock gone).leaves hlife (hupright.running hlife) with
      ⟨hdone, -⟩ | ⟨-, -, hpending, -⟩
    · exact hdone
    · exact absurd hp (hpending fault)
  · exact congrArg (·.status.active) (r.value.session.abandon_value (Connection.reason crashed))

theorem negotiated_plain : ∀ e ∈ [Event.negotiated .h1], e.debts = [] := by simp [Event.debts]

def agreed : List Occasion := [.tell [.negotiated .h1] negotiated_plain, .poll (.steady 0) fun _ => false]

def failedLate : List Occasion :=
  agreed ++ [.tell [.negotiationFailed Fault.closedSession] (by simp [Event.debts])]

def activatedLate : List Occasion :=
  agreed ++ [.ask .default .bare, .poll (.steady 0) fun _ => false, .tell [.active] (by simp [Event.debts])]

theorem built_blank (ceiling : Nat) (h : 0 < ceiling ∧ ceiling ≤ maxDispatches) :
    ∃ b : Builder, b.IsBuilt
      ∧ b.session (.steady 0) (.new (.v4 #v[127, 0, 0, 1] 80) true true) true = .ok (.blank ceiling) := by
  refine ⟨{ Builder.new with ceiling := ceiling }, .withCeiling .new ceiling ?_, rfl⟩
  simp [Builder.withCeiling, h]

def hungUp : List Occasion :=
  agreed ++ [.tell [.closed] (by simp [Event.debts]), .poll (.steady 0) fun _ => false]

theorem flag_down_activatedLate :
    let first := start 0 0 (.blank 1) false .new
    let next := first.run (activatedLate ++ [.poll (.steady 0) fun _ => false])
    (.offer ∈ next.actions ∧ (∀ more, (next.value.session.after more).Refuses)
      ∧ next.value.session.isActive = true ∧ (Session.blank 1).HeardLate next.inputs)
      ∧ (first.run hungUp).value.life = .finished ∧ (first.run hungUp).value.session.isActive = false := by
  obtain ⟨b, built, hb⟩ := built_blank 1 (by decide)
  have offered : .offer ∈ ((start 0 0 (.blank 1) false .new).run
      (activatedLate ++ [.poll (.steady 0) fun _ => false])).actions := by
    decide +kernel
  have hpending : (((start 0 0 (.blank 1) false .new).run activatedLate).value.polled (.steady 0)
      fun _ => false).value.2 = .pending false := by
    decide +kernel
  have hrefuses : ∀ more, (((start 0 0 (.blank 1) false .new).run
      (activatedLate ++ [.poll (.steady 0) fun _ => false])).value.session.after more).Refuses := by
    rw [value_concat]
    exact refuses_for_good (Session.blank_isNew 1) 0 0 false .new (by decide +kernel)
  have hup : ((start 0 0 (.blank 1) false .new).run
      (activatedLate ++ [.poll (.steady 0) fun _ => false])).value.session.isActive = true := by
    decide +kernel
  obtain ⟨hlate, -⟩ := flag_down built hb 0 0 false .new activatedLate
  obtain ⟨-, -, hfinished, -⟩ := flag_down built hb 0 0 false .new hungUp
  have hover : ((start 0 0 (.blank 1) false .new).run hungUp).value.life = .finished := by
    decide +kernel
  exact ⟨⟨offered, hrefuses, hup, hlate (.steady 0) _ false hpending offered hrefuses hup⟩,
    hover, hfinished hover⟩

/-- Three ways to leave the flag up for handles on a session that refuses whatever may come. -/
theorem flag_up_unusable :
    let first := start 0 0 (.blank 1) false .new
    (∀ occasions ∈ [failedLate, activatedLate],
      let r := first.run occasions
      let s := (r.value.meet (.poll (.steady 0) fun _ => false)).value
      (r.value.polled (.steady 0) fun _ => false).value.2 = .pending false
        ∧ s.attempt.connection.handles = 1 ∧ (∀ more, (s.session.after more).Refuses)
        ∧ s.session.isActive = true)
      ∧ let s := ((first.run agreed).value.meet (.drop false)).value
        s.attempt.connection.handles = 1 ∧ (∀ more, (s.session.after more).Refuses)
          ∧ s.session.isActive = true := by
  have hnew := Session.blank_isNew 1
  refine ⟨fun occasions hmem => ?_, by decide +kernel, ?_, by decide +kernel⟩
  · rcases List.mem_pair.1 hmem with rfl | rfl
    · exact ⟨by decide +kernel, by decide +kernel,
        refuses_for_good hnew 0 0 false .new (by decide +kernel), by decide +kernel⟩
    · exact ⟨by decide +kernel, by decide +kernel,
        refuses_for_good hnew 0 0 false .new (by decide +kernel), by decide +kernel⟩
  · exact refuses_for_good hnew 0 0 false .new (by decide +kernel)

end Service

end HttpSession
