import HttpSession.Proofs.Session.Sleeps

namespace HttpSession

open Happening (ofActions deeds)

theorem Timer.sleepUntil_ok {timer : Timer} (present : timer ≠ .absent) (deadline : Instant) :
    timer.sleepUntil deadline = .ok ⟨deadline, false⟩ := by
  cases timer with
  | absent => exact absurd rfl present
  | _ => rfl

theorem Timer.reset_ok {timer : Timer} (present : timer ≠ .absent) (current : Option Sleep)
    (deadline : Instant) : ∃ n, timer.reset current deadline = .ok n := by
  unfold reset
  split
  · split
    · exact ⟨_, rfl⟩
    · exact ⟨_, sleepUntil_ok present deadline⟩
  · exact ⟨_, sleepUntil_ok present deadline⟩

theorem AlarmCheck.of_ne_broken {timer : Timer} (present : timer ≠ .absent) (clock : Clock)
    (alarm : Option Sleep) (t : Tracker) (text : String) : of timer clock alarm t ≠ .broken text := by
  unfold of
  split
  · simp
  · rename_i deadline _
    obtain ⟨n, hn⟩ := Timer.reset_ok present alarm deadline
    simp only [hn]
    split <;> simp

theorem TimerLoop.run_crash {timer : Timer} (present : timer ≠ .absent) (clock : Clock)
    (v : TimerLoop) : (v.run timer clock).value.crash = v.crash := by
  induction v using TimerLoop.run.induct timer clock with
  | case1 v later hcheck =>
      rw [run_quiet hcheck]
      rfl
  | case2 v text hcheck => exact absurd hcheck (AlarmCheck.of_ne_broken present _ _ _ _)
  | case3 v deadline hcheck expired ih =>
      rw [run_due hcheck]
      exact ih

namespace Writer

variable {w : Writer}

theorem sleepOf_ne_error (w : Writer) (clock : Clock) (u : Upload) (text : String) :
    w.sleepOf clock u ≠ some (.error text) := by
  unfold sleepOf
  cases ht : w.timer with
  | absent => simp [Timer.isAbsent]
  | _ => cases u.limit <;> simp [Timer.isAbsent, Timer.sleep, Timer.sleepUntil]

theorem timeoutOf_absent (h : w.timer = .absent) (clock : Clock) (u : Upload) :
    w.timeoutOf clock u = none := by
  simp [timeoutOf, sleepOf, h, Timer.isAbsent]

theorem fire_timeouts (w : Writer) :
    w.fire.timeouts = w.timeouts.map fun x => (x.1, x.2.map Sleep.fire) := by
  simp [fire, timeouts, Function.comp_def]

end Writer

namespace Traffic

variable {c d : Traffic} {x : List Happening} {clock : Clock} {gone : Nat → Bool}

structure IsUndated (c : Traffic) : Prop where
  timer : c.writer.timer = .absent
  awaited : ∀ x ∈ c.tracker.terms, x.2.2 = none
  writing : ∀ x ∈ c.writer.timeouts, x.2 = none

namespace IsUndated

theorem fresh (ceiling : Nat) (encoder : Encoder) : (fresh ceiling encoder .absent).IsUndated :=
  ⟨rfl, by simp [Traffic.fresh, Tracker.new, Tracker.terms],
    by simp [Traffic.fresh, Writer.new, Writer.timeouts]⟩

theorem deadline (hc : c.IsUndated) {p : Pending} (hp : p ∈ c.tracker.pending) : p.deadline = none :=
  hc.awaited _ (Tracker.mem_terms hp)

theorem timeout (hc : c.IsUndated) {f : InFlight} (hf : f ∈ c.writer.active) : f.timeout = none :=
  hc.writing _ (List.mem_map_of_mem (f := fun f : InFlight => (f.seq, f.timeout)) hf)

theorem nextDeadline (hc : c.IsUndated) : c.tracker.nextDeadline = none := by
  have hnone : c.tracker.pending.filterMap (·.deadline) = [] :=
    List.filterMap_eq_nil_iff.2 fun p hp => hc.deadline hp
  rw [Tracker.nextDeadline, hnone]
  rfl

theorem sleeps (hc : c.IsUndated) : c.writer.sleeps = [] :=
  List.filterMap_eq_nil_iff.2 fun _ hf => hc.timeout hf

theorem timerLoop (hc : c.IsUndated) {v : TimerLoop} (hv : v.tracker = c.tracker) (timer : Timer)
    (clock : Clock) : v.run timer clock = pure { v with alarm := none } := by
  have hnext : v.tracker.nextDeadline = none := hv ▸ hc.nextDeadline
  have hquiet : v.check timer clock = .quiet none := by simp [TimerLoop.check, AlarmCheck.of, hnext]
  rw [TimerLoop.run_quiet hquiet]
  simp [TimerLoop.consult, AlarmCheck.consulted, hnext]

theorem narrow (hc : c.IsUndated) {fresh : List (Nat × Option Sleep)} (hn : c.Narrows fresh d)
    (hf : ∀ x ∈ fresh, x.2 = none) : d.IsUndated where
  timer := hn.timer.trans hc.timer
  awaited x hx := hc.awaited x (hn.awaited hx)
  writing x hx := (List.mem_append.1 (hn.writing hx)).elim (hc.writing x) (hf x)

theorem enroll (hc : c.IsUndated) (options : Options) (request : Request) (sink : Nat) :
    (c.enroll options request sink none).value.IsUndated where
  timer := hc.timer
  awaited x hx := by
    rw [Tracker.terms, enroll_pending, ← Tracker.terms] at hx
    rcases List.mem_cons.1 (c.tracker.register_terms _ _ _ _ hx) with rfl | hx
    · rfl
    · exact hc.awaited x hx
  writing := hc.writing

theorem fire (hc : c.IsUndated) : IsUndated { c with writer := c.writer.fire } where
  timer := hc.timer
  awaited := hc.awaited
  writing x hx := by
    obtain ⟨y, hy, rfl⟩ := List.mem_map.1 (c.writer.fire_timeouts ▸ hx)
    simp [hc.writing y hy]

end IsUndated

theorem Write.undated (hw : Write clock gone c x d) (hc : c.IsUndated) : d.IsUndated := by
  obtain ⟨fresh, hn, hfresh⟩ := hw.narrows
  refine hc.narrow hn fun y hy => ?_
  obtain ⟨u, -, -, rfl⟩ := hfresh y hy
  exact Writer.timeoutOf_absent hc.timer clock u

theorem Path.undated (hp : Path (Write clock gone) c x d) (hc : c.IsUndated) : d.IsUndated := by
  induction hp with
  | refl => exact hc
  | snoc _ hw ih => exact hw.undated ih

theorem Path.overdue_of_undated (hp : Path (Write clock gone) c x d) (hc : c.IsUndated) :
    HttpSession.overdue (deeds x) = [] := by
  induction hp with
  | refl => rfl
  | @snoc d e before x hq hw ih =>
      rw [Happening.deeds_append, overdue_append, ih, List.nil_append]
      refine List.eq_nil_iff_forall_not_mem.2 fun ⟨sink, fault⟩ h => ?_
      obtain ⟨-, p, -, -, f, hf, -, hlate⟩ := hw.overdue h
      simp [InFlight.isLate, (hq.undated hc).timeout hf] at hlate

end Traffic

namespace Session

variable {s r : Session} {c d : Traffic} {i : Input}

structure Calm (s r : Session) : Prop where
  timer : r.timer = s.timer
  alarm : s.alarm = none → r.alarm = none

theorem Calm.refl (s : Session) : s.Calm s := ⟨rfl, id⟩

theorem mapWriter_calm (s : Session) (f : Writer → Writer) : s.Calm (s.mapWriter f) := by
  unfold mapWriter
  split <;> exact ⟨rfl, id⟩

theorem respond_calm (s : Session) (hi : ∀ clock, i ≠ .keepTime clock) : s.Calm (s.respond i).value := by
  cases i with
  | keepTime clock => exact absurd rfl (hi clock)
  | negotiated promise reachable p =>
      by_cases hn : s.phase = .negotiating
      · obtain ⟨fault, he⟩ | ⟨encoder, -, hv, -⟩ := onNegotiated_cases hn promise reachable p
        · rw [respond, he, onNegotiationFailed_value]
          exact ⟨rfl, fun _ => rfl⟩
        · rw [respond, hv]
          exact ⟨rfl, id⟩
      · rw [respond, onNegotiated_ignored hn]
        exact .refl s
  | negotiationFailed fault =>
      rw [respond, onNegotiationFailed_value]
      exact ⟨rfl, fun _ => rfl⟩
  | dropped reason =>
      rw [respond, abandon_value]
      exact ⟨rfl, fun _ => rfl⟩
  | closed promise =>
      cases hc : s.transportClosed with
      | true =>
          rw [respond, onTransportClosed_again hc]
          exact .refl s
      | false =>
          rw [respond, onTransportClosed_value hc]
          exact ⟨rfl, fun _ => rfl⟩
  | dispatch clock options request sink =>
      have hsame := deadlineOf_snd s clock options
      simp only [respond, Traced.value_bind, Traced.value_pure, Session.dispatch]
      split
      · split
        · generalize s.deadlineOf clock options = due at hsame ⊢
          rw [hsame]
          split <;> exact ⟨rfl, id⟩
        · exact .refl s
      · exact .refl s
  | response stream part =>
      simp only [respond, onResponse]
      split <;> exact ⟨rfl, id⟩
  | message m =>
      simp only [respond, onMessage]
      split <;> exact .refl s
  | write clock gone =>
      simp only [respond, Session.write]
      split <;> exact ⟨rfl, id⟩
  | wire f =>
      obtain ⟨ht, ha⟩ := mapWriter_calm { s with channel := { s.channel with wire := f s.channel.wire } } _
      exact ⟨ht, ha⟩
  | sink f =>
      obtain ⟨ht, ha⟩ := mapWriter_calm
        { s with channel := { s.channel with frames := s.channel.frames.map f } } _
      exact ⟨ht, ha⟩
  | feed source frames ended => exact mapWriter_calm s _
  | fire =>
      obtain ⟨ht, ha⟩ := mapWriter_calm { s with
        negotiation := s.negotiation.map Sleep.fire, alarm := s.alarm.map Sleep.fire } Writer.fire
      exact ⟨ht, fun h => ha (by simp [h])⟩
  | _ => exact ⟨rfl, id⟩

theorem keepTime_timer (s : Session) (clock : Clock) : (s.keepTime clock).value.1.timer = s.timer := by
  have hsame := keepNegotiation_value s clock
  cases h : s.traffic? with
  | none =>
      rw [keepTime_of_none h]
      dsimp only
      rw [hsame]
  | some c =>
      rw [keepTime_of_established (traffic?_eq_some h).1]
      dsimp only
      rw [hsame]

theorem respond_timer (s : Session) (i : Input) : (s.respond i).value.timer = s.timer := by
  cases i with
  | keepTime clock => exact s.keepTime_timer clock
  | _ => exact (s.respond_calm (by simp)).timer

theorem after_timer (s : Session) (inputs : List Input) : (s.after inputs).timer = s.timer := by
  induction inputs generalizing s with
  | nil => rfl
  | cons i rest ih => exact (ih (s.step i).value).trans (respond_timer s i)

theorem keepTime_unbroken (present : s.timer ≠ .absent) (clock : Clock) :
    (s.keepTime clock).value.2 = none := by
  cases h : s.traffic? with
  | none => rw [keepTime_of_none h]
  | some c =>
      rw [keepTime_of_established (traffic?_eq_some h).1]
      exact TimerLoop.run_crash present _ _

theorem speak_ne_timeout (s : Session) (p : Protocol) :
    s.speak p ≠ .error Fault.negotiationTimeout := by
  unfold speak
  split
  · split <;> simp [Fault.negotiation, Fault.negotiationTimeout, Fault.because]
  · split <;> simp [Fault.negotiation, Fault.negotiationTimeout, Fault.because]

theorem timeout_of_verdict (h : s.negotiation = none)
    (hv : .refuse Fault.negotiationTimeout ∈ s.verdict i) :
    i = .negotiationFailed Fault.negotiationTimeout := by
  cases i with
  | negotiationFailed fault => simpa [verdict, eq_comm] using hv
  | negotiated promise reachable p =>
      simp only [verdict] at hv
      split at hv
      · split at hv
        · split at hv <;> simp at hv
        · rename_i fault hspeak
          obtain rfl : Fault.negotiationTimeout = fault := by simpa using hv
          exact absurd hspeak (s.speak_ne_timeout p)
      · simp at hv
  | closed promise =>
      simp only [verdict, farewell] at hv
      split at hv
      · simp at hv
      · split at hv <;> simp [Fault.negotiationTimeout, Fault.closedSession, Fault.because, Fault.of] at hv
  | keepTime clock => simp [verdict, h] at hv
  | _ => simp [verdict] at hv

structure IsUntimed (s : Session) : Prop where
  timer : s.timer = .absent
  negotiation : s.negotiation = none
  alarm : s.alarm = none
  traffic : ∀ c, s.traffic? = some c → c.IsUndated

namespace IsUntimed

theorem keepTime (hs : s.IsUntimed) (clock : Clock) : s.keepTime clock = pure (s, none) := by
  cases h : s.traffic? with
  | none => rw [keepTime_of_none h, keepNegotiation_of_none hs.negotiation]; rfl
  | some c =>
      have hphase := (traffic?_eq_some h).1
      have hsame : { s with alarm := none, phase := .established c.writer c.tracker } = s := by
        rw [← hphase, ← hs.alarm]
      have hloop := (hs.traffic c h).timerLoop (s.timerLoop_tracker c.tracker) s.timer clock
      rw [keepTime_of_established hphase, keepNegotiation_of_none hs.negotiation]
      simp only [hloop]
      exact congrArg (fun s => (⟨(s, none), []⟩ : Traced (Session × Option String))) hsame

theorem sleeps (hs : s.IsUntimed) : s.sleeps = [] := by
  have hwriter : (s.writer?.map Writer.sleeps).getD [] = [] := by
    cases h : s.writer? with
    | none => rfl
    | some w =>
        obtain ⟨c, hc, rfl⟩ := traffic_of_writer h
        exact (hs.traffic c hc).sleeps
  rw [Session.sleeps, hs.negotiation, hs.alarm, hwriter]
  rfl

theorem deadlines (hs : s.IsUntimed) {t : Tracker} (ht : s.tracker? = some t) :
    ∀ p ∈ t.pending, p.deadline = none := by
  obtain ⟨c, hc, rfl⟩ := traffic_of_tracker ht
  exact fun p => (hs.traffic c hc).deadline

theorem respond_undated (hs : s.IsUntimed) (ht : s.traffic? = some c)
    (hd : (s.respond i).value.traffic? = some d) : d.IsUndated := by
  obtain ⟨hphase, hd', hk⟩ := traffic?_eq_some ht
  have hc := hs.traffic c ht
  have still (h : (s.respond i).value.traffic? = s.traffic?) : d.IsUndated :=
    hs.traffic d (h.symm.trans hd)
  cases i with
  | fire =>
      have hvalue : (s.respond .fire).value.traffic? = some { c with writer := c.writer.fire } := by
        simp [Session.respond, Session.fire, mapWriter, hphase, traffic?, hd', hk]
      obtain rfl := Option.some.inj (hvalue.symm.trans hd)
      exact hc.fire
  | dispatch clock options request sink =>
      have hd : (s.dispatch clock options request sink).value.1.traffic? = some d := hd
      cases hroom : c.hasRoom with
      | false => exact still (by simp [respond, dispatch_of_full ht hroom, refuse])
      | true =>
          have hvalue := (dispatch_of_room ht hroom clock options request sink).1
          have hdeadline : (s.deadlineOf clock options).1 = none := by
            unfold deadlineOf
            cases options.responseTimeout <;> simp [hs.timer, Timer.isAbsent]
          rw [hdeadline] at hvalue
          obtain rfl := Option.some.inj (hvalue.symm.trans hd)
          exact hc.enroll options request sink
  | response stream part =>
      obtain ⟨hvalue, -⟩ := response_established ht stream part
      obtain rfl := Option.some.inj (hvalue.symm.trans hd)
      exact hc.narrow (.ofTracker (c.tracker.receive_terms stream part)) (by simp)
  | keepTime clock => exact still (by simp [respond, hs.keepTime clock])
  | write clock gone =>
      obtain ⟨hvalue, -⟩ := write_established ht clock gone
      obtain rfl := Option.some.inj (hvalue.symm.trans hd)
      exact (Traffic.written_path clock gone c).undated hc
  | wire f =>
      obtain rfl := Option.some.inj ((wire_established ht f).symm.trans hd)
      exact ⟨hc.timer, hc.awaited, hc.writing⟩
  | sink f =>
      obtain rfl := Option.some.inj ((sink_established ht f).symm.trans hd)
      exact ⟨hc.timer, hc.awaited, hc.writing⟩
  | feed source frames ended =>
      obtain rfl := Option.some.inj ((feed_established ht source frames ended).symm.trans hd)
      exact hc.narrow (c.feed_narrows source frames ended) (by simp)
  | negotiated promise reachable p =>
      exact still (by rw [respond, onNegotiated_ignored (by simp [hphase])])
  | negotiationFailed fault => simp [respond, traffic?] at hd
  | dropped reason => simp [respond, traffic?] at hd
  | closed promise =>
      cases hclosed : s.transportClosed with
      | true => exact still (by rw [respond, onTransportClosed_again hclosed])
      | false => simp [respond, onTransportClosed_value hclosed, traffic?] at hd
  | message m =>
      refine still ?_
      simp only [respond, onMessage]
      split <;> rfl
  | transportError e | activate | deactivate | markFallback | publish | linked => exact still rfl

theorem begun_undated (hs : s.IsUntimed) (hn : s.traffic? = none) (i : Input)
    (hd : (s.respond i).value.traffic? = some d) : d.IsUndated := by
  rcases traffic?_eq_none.1 hn with h | h
  · rcases respond_negotiating h i with ⟨hphase, -⟩ | ⟨hphase, -⟩ | ⟨p, encoder, -, -, hfresh⟩
    · simp [traffic?, hphase] at hd
    · simp [traffic?, hphase] at hd
    · obtain rfl := Option.some.inj (hfresh.symm.trans hd)
      have hc : (Traffic.fresh s.ceiling encoder s.timer).IsUndated :=
        hs.timer ▸ .fresh s.ceiling encoder
      exact ⟨hc.timer, hc.awaited, hc.writing⟩
  · simp [traffic?, respond_closed h i] at hd

theorem respond (hs : s.IsUntimed) (i : Input) : (s.respond i).value.IsUntimed where
  timer := (respond_timer s i).trans hs.timer
  negotiation := by
    rw [← Option.not_isSome_iff_eq_none]
    intro h
    simpa [hs.negotiation] using negotiation_of_respond h
  alarm := by
    cases i with
    | keepTime clock => simpa [Session.respond, hs.keepTime clock] using hs.alarm
    | _ => exact (s.respond_calm (by simp)).alarm hs.alarm
  traffic d hd := by
    cases ht : s.traffic? with
    | none => exact hs.begun_undated ht i hd
    | some c => exact hs.respond_undated ht hd

theorem step (hs : s.IsUntimed) (i : Input) : (s.step i).value.IsUntimed := by
  obtain ⟨ht, hn, ha, hc⟩ := hs.respond i
  exact ⟨ht, hn, ha, hc⟩

theorem after (hs : s.IsUntimed) (inputs : List Input) : (s.after inputs).IsUntimed := by
  induction inputs generalizing s with
  | nil => exact hs
  | cons i rest ih => exact ih (hs.step i)

theorem overdue (hs : s.IsUntimed) (i : Input) : overdue (s.respond i).actions = [] := by
  refine List.eq_nil_iff_forall_not_mem.2 fun x hx => ?_
  obtain ⟨clock, rfl | ⟨gone, rfl⟩⟩ := turn_of_overdue hx
  · simp [Session.respond, hs.keepTime clock] at hx
  · cases ht : s.traffic? with
    | none =>
      rcases traffic?_eq_none.1 ht with h | h <;> simp [Session.respond, Session.write, h] at hx
    | some c =>
        have hnone := (Traffic.written_path clock gone c).overdue_of_undated (hs.traffic c ht)
        rw [Happening.deeds_ofActions] at hnone
        rw [(write_established ht clock gone).2, hnone] at hx
        simp at hx

theorem overdue_history (hs : s.IsUntimed) (inputs : List Input) :
    HttpSession.overdue (deeds (s.history inputs)) = [] := by
  induction inputs generalizing s with
  | nil => rfl
  | cons i rest ih =>
      rw [history_cons, Happening.deeds_append, overdue_append, ih (hs.step i), List.append_nil]
      simpa using hs.overdue i

theorem told_of_refused (hs : s.IsUntimed) {inputs : List Input}
    (h : .refuse Fault.negotiationTimeout ∈ deeds (s.history inputs)) :
    .negotiationFailed Fault.negotiationTimeout ∈ inputs := by
  induction inputs generalizing s with
  | nil => simp [deeds] at h
  | cons i rest ih =>
      rw [history_cons, Happening.deeds_append, List.mem_append] at h
      rcases h with h | h
      · have h : .refuse Fault.negotiationTimeout ∈ (s.respond i).actions := by simpa using h
        exact List.mem_cons.2 (.inl (timeout_of_verdict hs.negotiation (mem_verdict h rfl)).symm)
      · exact List.mem_cons_of_mem _ (ih (hs.step i) h)

end IsUntimed

theorem IsNew.untimed (hs : s.IsNew) (absent : s.timer = .absent) : s.IsUntimed := by
  obtain ⟨channel, timer, clock, limit, ceiling, speaksHttp1, hnew⟩ := hs
  unfold Session.new at hnew
  cases hm : limit.mapM (timer.sleep clock) with
  | error text => simp [hm, bind, Except.bind] at hnew
  | ok negotiation =>
      simp only [hm, bind, Except.bind, pure, Except.pure, Except.ok.injEq] at hnew
      subst hnew
      obtain rfl : timer = .absent := absent
      cases limit with
      | none =>
          obtain rfl : none = negotiation := by simpa [pure, Except.pure] using hm
          exact ⟨rfl, rfl, rfl, by simp [traffic?]⟩
      | some span =>
          simp [Timer.sleep, Timer.sleepUntil, Timer.isAbsent, Functor.map, Except.map] at hm

theorem IsNew.unbroken (hs : s.IsNew) (inputs : List Input) (clock : Clock) :
    ((s.after inputs).keepTime clock).value.2 = none := by
  by_cases absent : s.timer = .absent
  · rw [((hs.untimed absent).after inputs).keepTime clock]
    rfl
  · exact keepTime_unbroken (by rwa [after_timer]) clock

end Session

end HttpSession
