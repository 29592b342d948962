import HttpSession.Proofs.Connection.Numbering
import HttpSession.Proofs.Session.Punctuality

namespace HttpSession

open Happening (ofActions deeds)

theorem Action.overdue?_of_isNotice (a : Action) (h : a.isNotice = true) : a.overdue? = none := by
  cases a with
  | answer sink reply =>
      cases reply with
      | failed fault =>
          have hclosed : fault = Fault.closedSession := by simpa [isNotice] using h
          rw [hclosed]
          rfl
      | complete => rfl
  | _ => rfl

structure Input.IsAt (clock : Clock) (i : Input) : Prop where
  unforced : i ≠ .fire
  timed : ∀ read, i.clock? = some read → read = clock

theorem Input.IsAt.steady {now : Instant} {i : Input} (h : i.IsAt (.steady now)) : i.IsSteady :=
  ⟨h.unforced, fun read hread => ⟨now, h.timed read hread⟩⟩

namespace Attempt

variable {a : Attempt} {clock : Clock} {gone : Nat → Bool} {log : List Entry} {r : Attempt × Outcome}

theorem input_at (a : Attempt) (clock : Clock) (e : Event) : (a.input clock e).IsAt clock := by
  cases e <;> exact ⟨by simp [input], by simp [input, Input.clock?, eq_comm]⟩

namespace Polls

theorem input_at (h : Polls a clock gone log r) : ∀ i ∈ Entry.inputs log, i.IsAt clock := by
  intro i hi
  rcases h.input_of i hi with ⟨b, e, rfl⟩ | rfl | rfl | rfl
  · exact b.input_at clock e
  all_goals exact ⟨by simp, by simp [Input.clock?, eq_comm]⟩

theorem inputs_of_pending (h : Polls a clock gone log r) {woken : Bool} (hr : r.2 = .pending woken) :
    ∃ inputs, Entry.inputs log = inputs ++ [.keepTime clock, .write clock gone, .publish]
      ∧ ((a.connection.session.after inputs).keepTime clock).value.2 = none
      ∧ ((a.connection.session.after (inputs ++ [.keepTime clock])).write clock gone).value.2 = none := by
  cases h with
  | idle closed => simp at hr
  | ended running takes => simp [finish] at hr
  | @onward log mid intake chores crash outcome running takes goes chore flag =>
      have htaken := takes.hears.session
      cases flag with
      | crashed text => simp at hr
      | pending =>
          cases chore with
          | published kept done =>
              refine ⟨Entry.inputs log, by simp [(listen_works mid _).heard], ?_, ?_⟩
              · rwa [← htaken]
              · rwa [Session.after_append, ← htaken]

end Polls

end Attempt

def Occasion.isPoll : Occasion → Bool
  | .poll _ _ => true
  | _ => false

/-- Nobody fires the sleeps of a connection, and whoever polls it has a timer that is ready in time. -/
def Occasion.IsSteady : Occasion → Prop
  | .poll clock _ => ∃ now, clock = .steady now
  | .touch .fire _ => False
  | _ => True

namespace Service

variable {s : Service} {o : Occasion} {i : Input} {clock : Clock} {gone : Nat → Bool}

theorem clock_of_input (h : i ∈ (s.meet o).inputs) (hc : i.clock? = some clock) :
    ∃ gone, o = .poll clock gone := by
  rw [meet_inputs] at h
  cases o with
  | poll told gone =>
      obtain rfl := ((s.polled_polls told gone).input_at i h).timed clock hc
      exact ⟨gone, rfl⟩
  | touch j outer =>
      obtain rfl := List.mem_singleton.1 h
      cases i <;> simp [Input.isOuter] at outer <;> simp [Input.clock?] at hc
  | drop | feed =>
      obtain rfl := List.mem_singleton.1 h
      simp [Input.clock?] at hc
  | _ => simp at h

theorem inputs_of_pending {woken : Bool} (h : (s.polled clock gone).value.2 = .pending woken) :
    ∃ inputs, (s.meet (.poll clock gone)).inputs = inputs ++ [.keepTime clock, .write clock gone, .publish]
      ∧ ((s.session.after inputs).keepTime clock).value.2 = none
      ∧ ((s.session.after (inputs ++ [.keepTime clock])).write clock gone).value.2 = none := by
  rw [meet_poll]
  exact (s.polled_polls clock gone).inputs_of_pending h

theorem inputs_steady (ho : o.IsSteady) : ∀ i ∈ (s.meet o).inputs, i.IsSteady := by
  intro i hi
  have hclock (clock : Clock) (hc : i.clock? = some clock) : ∃ now, clock = .steady now := by
    obtain ⟨gone, rfl⟩ := clock_of_input hi hc
    exact ho
  refine ⟨?_, hclock⟩
  rw [meet_inputs] at hi
  cases o with
  | poll told gone => exact ((s.polled_polls told gone).input_at i hi).unforced
  | touch j outer =>
      obtain rfl := List.mem_singleton.1 hi
      rintro rfl
      exact ho
  | drop | feed =>
      obtain rfl := List.mem_singleton.1 hi
      simp
  | _ => simp at hi

theorem run_inputs_steady {occasions : List Occasion} (ho : ∀ o ∈ occasions, o.IsSteady) :
    ∀ i ∈ (s.run occasions).inputs, i.IsSteady := by
  induction occasions generalizing s with
  | nil => simp [run]
  | cons o rest ih =>
      intro i hi
      rw [run, Logged.inputs_bind] at hi
      rcases List.mem_append.1 hi with hi | hi
      · exact inputs_steady (ho o List.mem_cons_self) i hi
      · exact ih (fun o ho' => ho o (List.mem_cons_of_mem _ ho')) i hi

theorem callers_nodup (session : Session) (id k : Nat) (closesAtOnce : Bool) (promise : Promise)
    (occasions : List Occasion) :
    (((start id k session closesAtOnce promise).run occasions).inputs.filterMap Input.caller?).Nodup := by
  have hline := ((start_inLine session id k closesAtOnce promise).run occasions).ascending
  rw [List.nil_append] at hline
  exact (List.pairwise_append.1 hline).1.imp Nat.ne_of_lt

theorem overdue_met (s : Service) (o : Occasion) :
    overdue (s.meet o).actions = overdue (deeds (s.session.history (s.meet o).inputs)) :=
  (s.meet_hears o).filterMap Action.overdue?_of_isNotice

theorem respond_subset {before behind : List Input} (h : (s.meet o).inputs = before ++ i :: behind) :
    ((s.session.after before).respond i).actions ⊆ (s.meet o).actions := by
  intro x hx
  refine (s.meet_hears o).said.subset (Happening.action_mem_iff.1 ?_)
  rw [h, Session.history_append, Session.history_cons]
  refine List.mem_append_right _ (List.mem_append_left _ (List.mem_cons_of_mem _ ?_))
  exact Happening.action_mem_ofActions.2 hx

section

variable {session : Session} (hs : session.IsNew) (timed : session.timer = .present) (id k : Nat)
  (closesAtOnce : Bool) (promise : Promise) {occasions : List Occasion}
  (steady : ∀ o ∈ occasions, o.IsSteady) (now : Instant) (gone : Nat → Bool)

include steady

theorem known_before {before behind : List Input} :
    let first := start id k session closesAtOnce promise
    let r := first.run occasions
    let known := r.inputs ++ before
    (r.value.meet (.poll (.steady now) gone)).inputs = before ++ behind →
      (first.run (occasions ++ [.poll (.steady now) gone])).inputs = known ++ behind
        ∧ r.value.session.after before = session.after known
        ∧ (∀ i ∈ known, i.IsSteady) ∧ (known.filterMap Input.caller?).Nodup := by
  intro first r known h
  have hall : (first.run (occasions ++ [.poll (.steady now) gone])).inputs = known ++ behind := by
    rw [inputs_concat, h, List.append_assoc]
  have hsteady : ∀ i ∈ (first.run (occasions ++ [.poll (.steady now) gone])).inputs, i.IsSteady := by
    refine run_inputs_steady fun o ho => ?_
    rcases List.mem_append.1 ho with ho | ho
    · exact steady o ho
    · exact List.mem_singleton.1 ho ▸ ⟨now, rfl⟩
  have hown := callers_nodup session id k closesAtOnce promise (occasions ++ [.poll (.steady now) gone])
  refine ⟨hall, ?_, fun i hi => hsteady i (hall ▸ List.mem_append_left _ hi), ?_⟩
  · rw [Session.after_append]
    exact congrArg (Session.after · before) (session_of_run id k closesAtOnce promise occasions)
  · exact (hall ▸ hown).sublist ((List.sublist_append_left _ _).filterMap _)

include hs timed

theorem onTime_of_pending {woken : Bool} :
    let first := start id k session closesAtOnce promise
    let r := first.run occasions
    (r.value.polled (.steady now) gone).value.2 = .pending woken →
      session.OnTime (first.run (occasions ++ [.poll (.steady now) gone])).inputs now
        (r.value.meet (.poll (.steady now) gone)).value.session := by
  intro first r hp
  obtain ⟨before, hheard, -, hwritten⟩ := inputs_of_pending hp
  obtain ⟨hall, hsession, hsteady, hown⟩ :=
    known_before id k closesAtOnce promise steady now gone hheard
  rw [session_met, hall]
  refine hs.onTime timed hsteady hown ?_
  rw [Session.after_concat, ← hsession, ← Session.after_concat]
  exact hwritten

theorem missed_of_overdue {o : Occasion} (ho : o.IsSteady) {sink : Nat} {fault : Fault} :
    let first := start id k session closesAtOnce promise
    let r := first.run occasions
    (sink, fault) ∈ overdue (r.value.meet o).actions →
      ∃ now gone, o = .poll (.steady now) gone
        ∧ session.Missed (first.run (occasions ++ [.poll (.steady now) gone])).inputs now sink fault := by
  intro first r h
  rw [overdue_met] at h
  obtain ⟨x, hx, hover⟩ := List.mem_filterMap.1 h
  obtain ⟨xs, ys, hsplit⟩ := List.append_of_mem (Happening.action_mem_iff.2 hx)
  obtain ⟨before, i, behind, ps, qs, hheard, hactions, -⟩ := Session.history_split hsplit
  have hlate : (sink, fault) ∈ overdue ((r.value.session.after before).respond i).actions :=
    List.mem_filterMap.2 ⟨x, by simp [hactions], hover⟩
  -- Only a poll reads the time.
  obtain ⟨clock, hread⟩ : ∃ clock, i.clock? = some clock := by
    obtain ⟨clock, rfl | ⟨gone, rfl⟩⟩ := Session.turn_of_overdue hlate <;> exact ⟨clock, rfl⟩
  have hi : i ∈ (r.value.meet o).inputs := by simp [hheard]
  obtain ⟨gone, rfl⟩ := clock_of_input hi hread
  obtain ⟨now, rfl⟩ := ho
  rw [List.append_cons] at hheard
  obtain ⟨hall, -, hsteady, hown⟩ :=
    known_before id k closesAtOnce promise steady now gone hheard
  rw [session_of_run, ← Session.after_append] at hlate
  rw [← List.append_assoc] at hall hsteady hown
  obtain ⟨told, htold, hmissed⟩ := hs.missed timed hsteady hown hlate
  obtain rfl : told = now := congrArg Clock.now (Option.some.inj (htold.symm.trans hread))
  exact ⟨told, gone, rfl, hall ▸ hmissed.append behind⟩

end

/-- A connection that is polled by a timer that is ready when the time has come, and not before, leaves
nothing late behind when it is to go on. It tells nobody of a deadline before it has passed, and when
several have passed it tells everybody of their own. -/
theorem deadlines_honoured {builder : Builder} (timed : builder.timer = .present) {opened : Clock}
    {channel : Channel} {speaksHttp1 : Bool} {session : Session}
    (hb : builder.session opened channel speaksHttp1 = .ok session) (id k : Nat) (closesAtOnce : Bool)
    (promise : Promise) {occasions : List Occasion} (steady : ∀ o ∈ occasions, o.IsSteady) :
    let first := start id k session closesAtOnce promise
    let r := first.run occasions
    (∀ now gone woken, (r.value.polled (.steady now) gone).value.2 = .pending woken →
        session.OnTime (first.run (occasions ++ [.poll (.steady now) gone])).inputs now
          (r.value.meet (.poll (.steady now) gone)).value.session)
      ∧ (∀ o sink fault, o.IsSteady → .answer sink (.failed fault) ∈ (r.value.meet o).actions →
        fault.kind = .responseTimeout ∨ fault.kind = .writeTimeout →
        ∃ now gone, o = .poll (.steady now) gone
          ∧ session.Missed (first.run (occasions ++ [.poll (.steady now) gone])).inputs now sink fault)
      ∧ ∀ now gone before clock behind t,
        (r.value.meet (.poll (.steady now) gone)).inputs = before ++ .keepTime clock :: behind →
        let s := r.value.session.after before
        s.tracker? = some t →
        let answers := (s.respond (.keepTime clock)).actions.filter Action.isAnswer
        answers ⊆ (r.value.meet (.poll (.steady now) gone)).actions
          ∧ answers = (t.pending.filter (·.isDue now)).map (·.fail Fault.responseTimeout)
            ++ if t.binding = .ordered ∧ t.pending.filter (·.isDue now) ≠ [] then
                (t.pending.filter fun p => !p.isDue now).map (·.fail Fault.closedSession)
              else [] := by
  intro first r
  have hnew := Builder.session_isNew hb
  have htimer : session.timer = .present := (Builder.session_settings hb).1.trans timed
  refine ⟨fun now gone woken hp => ?_, fun o sink fault ho hanswer hfault => ?_, ?_⟩
  · exact onTime_of_pending hnew htimer id k closesAtOnce promise steady now gone hp
  · refine missed_of_overdue hnew htimer id k closesAtOnce promise steady ho (mem_overdue hanswer ?_)
    rcases hfault with h | h <;> simp [Fault.isOverdue, h]
  · intro now gone before clock behind t hheard s ht answers
    obtain ⟨-, hsession, hsteady, -⟩ := known_before id k closesAtOnce promise steady now gone hheard
    obtain ⟨told, hpoll⟩ := clock_of_input (s := r.value) (i := .keepTime clock) (by rw [hheard]; simp) rfl
    obtain rfl : .steady now = clock := (Occasion.poll.inj hpoll).1
    refine ⟨fun x hx => respond_subset hheard (List.mem_filter.1 hx).1, ?_⟩
    have hs : s = session.after (r.inputs ++ before) := hsession
    rw [hs] at ht
    rw [← hnew.kept_answers htimer hsteady ht, ← hs]

def hurried : Session :=
  { Session.blank maxDispatches with
    timer := .present, negotiation := some ⟨defaultNegotiationTimeout, false⟩ }

def urgent : List Occasion :=
  agreed ++ [.ask { Options.default with responseTimeout := some 5 } .bare,
    .ask { Options.default with responseTimeout := some 7 } .bare, .ask .default .bare,
    .poll (.steady 0) fun _ => false]

theorem urgent_pending : (((start 0 0 hurried false .new).run urgent).value.polled (.steady 10)
      fun _ => false).value.2 = .pending false := by
  decide +kernel

theorem urgent_due :
    (((start 0 0 hurried false .new).run urgent).value.session.tracker?.map fun t =>
      (t.pending.filter (·.isDue 10)).map (·.fail Fault.responseTimeout)
        ++ if t.binding = .ordered ∧ t.pending.filter (·.isDue 10) ≠ [] then
            (t.pending.filter fun p => !p.isDue 10).map (·.fail Fault.closedSession)
          else [])
      = some [.answer 0 (.failed Fault.responseTimeout), .answer 1 (.failed Fault.responseTimeout),
        .answer 2 (.failed Fault.closedSession)] := by
  decide +kernel

theorem deadlines_honoured_urgent :
    let first := start 0 0 hurried false .new
    let met := (first.run urgent).value.meet (.poll (.steady 10) fun _ => false)
    let heard := (first.run (urgent ++ [.poll (.steady 10) fun _ => false])).inputs
    hurried.OnTime heard 10 met.value.session ∧ hurried.Missed heard 10 1 Fault.responseTimeout
      ∧ [.answer 0 (.failed Fault.responseTimeout), .answer 1 (.failed Fault.responseTimeout),
          .answer 2 (.failed Fault.closedSession)] ⊆ met.actions := by
  have hb : (Builder.new.withTimer .present).session (.steady 0) (.new (.v4 #v[127, 0, 0, 1] 80) true true)
      true = .ok hurried := rfl
  have hsteady : ∀ o ∈ urgent, o.IsSteady := by simp [urgent, agreed, Occasion.IsSteady]
  obtain ⟨hontime, hmissed, hanswers⟩ := deadlines_honoured rfl hb 0 0 false .new hsteady
  -- Nothing is left to take, so time is kept at once.
  obtain ⟨before, hheard, -⟩ := inputs_of_pending urgent_pending
  have hlength : (((start 0 0 hurried false .new).run urgent).value.meet
      (.poll (.steady 10) fun _ => false)).inputs.length = 3 := by
    decide +kernel
  obtain rfl : before = [] := by simpa [hheard] using hlength
  obtain ⟨t, ht, hall⟩ := Option.map_eq_some_iff.1 urgent_due
  obtain ⟨htold, hexact⟩ := hanswers 10 (fun _ => false) [] _ _ t hheard ht
  rw [hexact, hall] at htold
  obtain ⟨now, gone, hpoll, hlate⟩ := hmissed (.poll (.steady 10) fun _ => false) 1 Fault.responseTimeout
    ⟨10, rfl⟩ (htold (by simp)) (.inl rfl)
  obtain ⟨hnow, rfl⟩ := Occasion.poll.inj hpoll
  obtain rfl : 10 = now := congrArg Clock.now hnow
  exact ⟨hontime 10 (fun _ => false) false urgent_pending, hlate, htold⟩

end Service

end HttpSession
