import HttpSession.Proofs.Session.Registration
import HttpSession.Proofs.Session.Sleeps

namespace HttpSession

open Happening (ofActions deeds)

def Input.wish? (sink : Nat) : Input → Option (Instant × Options)
  | .dispatch clock options _ caller => if caller = sink then some (clock.now, options) else none
  | _ => none

def wish? (inputs : List Input) (sink : Nat) : Option (Instant × Options) :=
  inputs.findSome? (Input.wish? sink)

def responseDue (inputs : List Input) (sink : Nat) : Option Instant :=
  (wish? inputs sink).bind fun wish => wish.2.responseTimeout.map (wish.1 + ·)

namespace Session

variable {s : Session} {c d : Traffic} {i : Input} {inputs : List Input} {now : Instant}
  {seq sink : Nat}

def begunAt (s : Session) (seq : Nat) : List Input → Option Instant
  | [] => none
  | i :: rest =>
      (if seq ∈ launched (ofActions (s.respond i).actions) then i.clock?.map Clock.now else none).or
        ((s.step i).value.begunAt seq rest)

def writeDue (s : Session) (inputs : List Input) (seq sink : Nat) : Option Instant :=
  (wish? inputs sink).bind fun wish => wish.2.writeTimeout.bind fun span =>
    (s.begunAt seq inputs).map (· + span)

theorem begunAt_append (s : Session) (seq : Nat) (xs ys : List Input) :
    s.begunAt seq (xs ++ ys) = (s.begunAt seq xs).or ((s.after xs).begunAt seq ys) := by
  induction xs generalizing s with
  | nil => rfl
  | cons i rest ih => simp only [List.cons_append, begunAt, ih, Option.or_assoc, after_cons]

theorem begunAt_eq_none (h : seq ∉ launched (s.history inputs)) : s.begunAt seq inputs = none := by
  induction inputs generalizing s with
  | nil => rfl
  | cons i rest ih =>
      rw [history_cons, step_actions, launched_append, launched_input, List.mem_append, not_or] at h
      rw [begunAt, if_neg h.1, ih h.2]
      rfl

theorem wish?_concat (own : ((inputs ++ [i]).filterMap Input.caller?).Nodup)
    (h : i.caller? = some sink) : wish? (inputs ++ [i]) sink = i.wish? sink := by
  have hnone : wish? inputs sink = none := by
    refine List.findSome?_eq_none_iff.2 fun j hj => ?_
    cases j with
    | dispatch clock options request caller =>
        refine if_neg ?_
        rintro rfl
        rw [List.filterMap_append, List.nodup_append] at own
        exact own.2.2 caller (List.mem_filterMap.2 ⟨_, hj, rfl⟩) caller (by simp [h]) rfl
    | _ => rfl
  rw [wish?, List.findSome?_append, ← wish?, hnone]
  simp

theorem wish?_append {wish : Instant × Options} (h : wish? inputs sink = some wish) (more : List Input) :
    wish? (inputs ++ more) sink = some wish := by
  have h : inputs.findSome? (Input.wish? sink) = some wish := h
  rw [wish?, List.findSome?_append, h]
  rfl

structure Asked (s : Session) (inputs : List Input) (seq sink : Nat) (start : Instant)
    (options : Options) : Prop where
  enrolled : (seq, sink) ∈ HttpSession.enrolled (s.history inputs)
  wish : wish? inputs sink = some (start, options)

theorem Asked.append {start : Instant} {options : Options} (h : s.Asked inputs seq sink start options)
    (more : List Input) : s.Asked (inputs ++ more) seq sink start options where
  enrolled := by
    rw [history_append, enrolled_append]
    exact List.mem_append_left _ h.enrolled
  wish := wish?_append h.wish more

def Dates (s : Session) (inputs : List Input) (c : Traffic) : Prop :=
  c.Dated (s.Asked inputs) fun seq later => s.begunAt seq inputs = some later

theorem Dates.append (h : s.Dates inputs c) (more : List Input) : s.Dates (inputs ++ more) c := by
  refine Traffic.Dated.mono h (fun h => h.append more) fun h => ?_
  rw [begunAt_append, h]
  rfl

structure Timed (s : Session) (inputs : List Input) : Prop where
  steady : (s.after inputs).IsSteady
  negotiation : (s.after inputs).negotiation = none ∨ (s.after inputs).negotiation = s.negotiation
  traffic : ∀ c, (s.after inputs).traffic? = some c → s.Dates inputs c

theorem IsNew.unarmed (hs : s.IsNew) (ht : (s.after inputs).traffic? = some c) :
    (s.after inputs).negotiation = none := by
  by_contra hsome
  have hn := (hs.armed (Option.isSome_iff_ne_none.2 hsome)).1
  simp [(traffic?_eq_some ht).1] at hn

theorem IsNew.begun (hs : s.IsNew) {gone : Nat → Bool}
    (h : seq ∈ launched (ofActions ((s.after inputs).respond
      (.write (Clock.steady now) gone)).actions)) :
    s.begunAt seq (inputs ++ [.write (Clock.steady now) gone]) = some now := by
  -- The numbers of the heads that were written ascend, so no head is written twice.
  have hfirst : seq ∉ launched (s.history inputs) := by
    obtain ⟨before, rest, c, hall, hr, hquiet, -⟩ :=
      hs.reached (inputs ++ [.write (Clock.steady now) gone])
    have hlines := (List.pairwise_append.1 hr.coherent.lines).1.imp Nat.ne_of_lt
    have hsplit : launched (s.history inputs) ++ launched (ofActions ((s.after inputs).respond
        (.write (Clock.steady now) gone)).actions) = launched before := by
      have hboth := congrArg launched hall
      rw [launched_append, hquiet.launched, List.append_nil, history_append] at hboth
      simpa using hboth
    rw [← hsplit] at hlines
    exact fun hin => (List.nodup_append.1 hlines).2.2 seq hin seq h rfl
  rw [begunAt_append, begunAt_eq_none hfirst, begunAt, if_pos h]
  rfl

theorem IsNew.timed (hs : s.IsNew) (steady : s.timer = .present) (hi : ∀ i ∈ inputs, i.IsSteady)
    (own : (inputs.filterMap Input.caller?).Nodup) : s.Timed inputs := by
  induction inputs using List.reverseRecOn with
  | nil =>
      refine ⟨hs.isSteady steady, .inr rfl, fun c ht => ?_⟩
      simp [traffic?, hs.start.1] at ht
  | append_singleton inputs i ih =>
      have hbefore := ih (fun j hj => hi j (List.mem_append_left _ hj))
        (own.sublist ((List.sublist_append_left _ _).filterMap _))
      have hlast : i.IsSteady := hi i (by simp)
      have hrests := respond_rests hbefore.steady hlast
      refine ⟨(hs.isSteady steady).after hi, ?_, fun d hd => ?_⟩
      · rw [after_concat]
        rcases hrests.negotiation with hnone | hsame
        · exact .inl hnone
        · exact hbefore.negotiation.imp hsame.trans hsame.trans
      · rw [after_concat] at hd
        have hd : ((s.after inputs).respond i).value.traffic? = some d := hd
        cases ht : (s.after inputs).traffic? with
        | none => exact dated_of_none hbefore.steady ht i hd
        | some c =>
            have hc := (hbefore.traffic c ht).append [i]
            refine respond_dated hbefore.steady hlast ht (hs.unarmed ht) hc ?_ ?_ hd
            · rintro now options request sink rfl seq hin
              refine ⟨?_, (wish?_concat own rfl).trans (if_pos rfl)⟩
              rw [history_append, enrolled_append]
              exact List.mem_append_right _ (by simpa using hin)
            · rintro now gone rfl seq hin
              exact hs.begun hin

theorem Asked.responseDue {start : Instant} {options : Options}
    (h : s.Asked inputs seq sink start options) :
    responseDue inputs sink = options.responseTimeout.map (start + ·) := by
  rw [HttpSession.responseDue, h.wish]
  rfl

theorem Asked.writeDue {start later : Instant} {options : Options}
    (h : s.Asked inputs seq sink start options) (hb : s.begunAt seq inputs = some later) :
    s.writeDue inputs seq sink = options.writeTimeout.map (later + ·) := by
  rw [Session.writeDue, h.wish, hb, Option.bind_some]
  cases options.writeTimeout <;> rfl

theorem IsNew.one_caller (hs : s.IsNew) {caller : Nat} (h : (seq, sink) ∈ enrolled (s.history inputs))
    (h' : (seq, caller) ∈ enrolled (s.history inputs)) : sink = caller := by
  have hnodup : ((enrolled (s.history inputs)).map Prod.fst).Nodup := by
    rw [hs.numbers]
    exact List.nodup_range'
  exact (Prod.mk.inj (List.inj_on_of_nodup_map hnodup h h' rfl)).2

theorem responseDue_append {due : Instant} (h : responseDue inputs sink = some due) (more : List Input) :
    responseDue (inputs ++ more) sink = some due := by
  obtain ⟨wish, hwish, hdue⟩ := Option.bind_eq_some_iff.1 h
  exact Option.bind_eq_some_iff.2 ⟨wish, wish?_append hwish more, hdue⟩

theorem writeDue_append {due : Instant} (h : s.writeDue inputs seq sink = some due) (more : List Input) :
    s.writeDue (inputs ++ more) seq sink = some due := by
  obtain ⟨wish, hwish, hspan⟩ := Option.bind_eq_some_iff.1 h
  obtain ⟨span, hspan, hbegun⟩ := Option.bind_eq_some_iff.1 hspan
  obtain ⟨later, hbegun, hdue⟩ := Option.map_eq_some_iff.1 hbegun
  refine Option.bind_eq_some_iff.2 ⟨wish, wish?_append hwish more, ?_⟩
  refine Option.bind_eq_some_iff.2 ⟨span, hspan, Option.map_eq_some_iff.2 ⟨later, ?_, hdue⟩⟩
  rw [begunAt_append, hbegun]
  rfl

/-- A deadline that a caller chose has passed, and this is what the caller is told. -/
inductive Missed (s : Session) (inputs : List Input) (now : Instant) (sink : Nat) : Fault → Prop
  | response {due : Instant} (chosen : HttpSession.responseDue inputs sink = some due)
      (passed : due ≤ now) : Missed s inputs now sink Fault.responseTimeout
  | body {seq : Nat} {due : Instant} (enrolled : (seq, sink) ∈ HttpSession.enrolled (s.history inputs))
      (chosen : s.writeDue inputs seq sink = some due) (passed : due ≤ now) :
      Missed s inputs now sink Fault.writeTimeout

theorem Missed.append {fault : Fault} (h : s.Missed inputs now sink fault) (more : List Input) :
    s.Missed (inputs ++ more) now sink fault := by
  cases h with
  | response chosen passed => exact .response (responseDue_append chosen more) passed
  | body enrolled chosen passed =>
      refine .body ?_ (writeDue_append chosen more) passed
      rw [history_append, enrolled_append]
      exact List.mem_append_left _ enrolled

section

variable (hs : s.IsNew) (steady : s.timer = .present)

include hs steady

theorem IsNew.response_overdue (timed : ∀ i ∈ inputs, i.IsSteady)
    (own : (inputs.filterMap Input.caller?).Nodup) {fault : Fault}
    (h : (sink, fault) ∈ overdue ((s.after inputs).respond (.keepTime (Clock.steady now))).actions) :
    fault = Fault.responseTimeout ∧ ∃ due, responseDue inputs sink = some due ∧ due ≤ now := by
  have hbefore := hs.timed steady timed own
  cases ht : (s.after inputs).traffic? with
  | none => simp [overdue_of_idle (respond_idle ht (i := .keepTime _) rfl rfl)] at h
  | some c =>
      rw [(keepTime_steady hbefore.steady ht (hs.unarmed ht) now).2, Tracker.overdue_expire] at h
      obtain ⟨p, hp, he⟩ := List.mem_map.1 h
      obtain ⟨rfl, rfl⟩ := Prod.mk.inj he
      obtain ⟨hp, hdue⟩ := List.mem_filter.1 hp
      obtain ⟨start, options, hasked, hdeadline⟩ :=
        (hbefore.traffic c ht).awaited p.seq p.sink p.deadline (Tracker.mem_terms hp)
      refine ⟨rfl, ?_⟩
      rw [hasked.responseDue, ← hdeadline]
      unfold Pending.isDue at hdue
      cases hd : p.deadline with
      | none => simp [hd] at hdue
      | some due => exact ⟨due, rfl, by simpa [hd] using hdue⟩

theorem IsNew.write_overdue {gone : Nat → Bool}
    (timed : ∀ i ∈ inputs ++ [.write (Clock.steady now) gone], i.IsSteady)
    (own : (inputs.filterMap Input.caller?).Nodup) {fault : Fault}
    (h : (sink, fault) ∈ overdue
      ((s.after inputs).respond (.write (Clock.steady now) gone)).actions) :
    fault = Fault.writeTimeout ∧ ∃ seq due, (seq, sink) ∈ enrolled (s.history inputs)
      ∧ s.writeDue (inputs ++ [.write (Clock.steady now) gone]) seq sink = some due
      ∧ due ≤ now := by
  have hbefore := hs.timed steady (fun i hi => timed i (List.mem_append_left _ hi)) own
  cases ht : (s.after inputs).traffic? with
  | none => simp [overdue_of_idle (respond_idle ht (i := .write _ _) rfl rfl)] at h
  | some c =>
      have hc := (hbefore.traffic c ht).append [.write (Clock.steady now) gone]
      have hpath := Traffic.written_path (Clock.steady now) gone c
      dsimp only at hpath
      rw [← (write_established ht (Clock.steady now) gone).2] at hpath
      obtain ⟨rfl, seq, due, hterm, caller, start, options, later, span, hasked, hbegun, hspan, hover⟩ :=
        hpath.overdue hc (fun seq hin => hs.begun hin) (by simpa using h)
      -- Who awaits the response under this number is who sent the body.
      obtain ⟨_, _, hawaited, -⟩ := (hbefore.traffic c ht).awaited seq sink due hterm
      obtain rfl := hs.one_caller (hawaited.append _).enrolled hasked.enrolled
      refine ⟨rfl, seq, later + span, hawaited.enrolled, ?_, hover⟩
      rw [hasked.writeDue hbegun, hspan]
      rfl

theorem IsNew.missed (timed : ∀ j ∈ inputs ++ [i], j.IsSteady)
    (own : ((inputs ++ [i]).filterMap Input.caller?).Nodup) {fault : Fault}
    (h : (sink, fault) ∈ overdue ((s.after inputs).respond i).actions) :
    ∃ now, i.clock? = some (Clock.steady now) ∧ s.Missed (inputs ++ [i]) now sink fault := by
  have hearlier (j : Input) (hj : j ∈ inputs) : j.IsSteady := timed j (List.mem_append_left _ hj)
  have hi : i.IsSteady := timed i (by simp)
  have hown : (inputs.filterMap Input.caller?).Nodup :=
    own.sublist ((List.sublist_append_left _ _).filterMap _)
  obtain ⟨clock, rfl | ⟨gone, rfl⟩⟩ := turn_of_overdue h
  · obtain ⟨now, rfl⟩ := hi.timed clock rfl
    obtain ⟨rfl, due, hdue, hpassed⟩ := hs.response_overdue steady hearlier hown h
    exact ⟨now, rfl, .response (responseDue_append hdue _) hpassed⟩
  · obtain ⟨now, rfl⟩ := hi.timed clock rfl
    obtain ⟨rfl, seq, due, henrolled, hdue, hpassed⟩ := hs.write_overdue steady timed hown h
    refine ⟨now, rfl, .body ?_ hdue hpassed⟩
    rw [history_append, enrolled_append]
    exact List.mem_append_left _ henrolled

theorem IsNew.kept_answers (timed : ∀ i ∈ inputs, i.IsSteady) {t : Tracker}
    (ht : (s.after inputs).tracker? = some t) :
    ((s.after inputs).respond (.keepTime (Clock.steady now))).actions.filter Action.isAnswer
      = (t.pending.filter (·.isDue now)).map (·.fail Fault.responseTimeout)
        ++ if t.binding = .ordered ∧ t.pending.filter (·.isDue now) ≠ [] then
            (t.pending.filter fun p => !p.isDue now).map (·.fail Fault.closedSession)
          else [] := by
  obtain ⟨c, hc, rfl⟩ := traffic_of_tracker ht
  rw [(keepTime_steady ((hs.isSteady steady).after timed) hc (hs.unarmed hc) now).2]
  exact Tracker.expire_answers (hs.established inputs hc).1.coherent.desynced now

end

/-- Everything that a session waits for at last has the deadline that was asked for, and at this moment
none of them has passed. -/
structure OnTime (s : Session) (inputs : List Input) (now : Instant) (last : Session) : Prop where
  negotiation : ∀ n, last.negotiation = some n → s.negotiation = some n ∧ now < n.deadline
  responses : ∀ t, last.tracker? = some t → ∀ p ∈ t.pending,
    p.deadline = responseDue inputs p.sink ∧ ∀ due, p.deadline = some due → now < due
  bodies : ∀ w, last.writer? = some w → ∀ f ∈ w.active, ∃ sink,
    (f.seq, sink) ∈ enrolled (s.history inputs)
      ∧ f.timeout.map Sleep.deadline = s.writeDue inputs f.seq sink
      ∧ ∀ due, f.timeout.map Sleep.deadline = some due → now < due

def turns (now : Instant) (gone : Nat → Bool) : List Input :=
  [.keepTime (Clock.steady now), .write (Clock.steady now) gone, .publish]

theorem turns_steady (now : Instant) (gone : Nat → Bool) : ∀ i ∈ turns now gone, i.IsSteady := by
  intro i hi
  simp only [turns, List.mem_cons, List.not_mem_nil, or_false] at hi
  rcases hi with rfl | rfl | rfl
  · exact ⟨by simp, fun clock hc => ⟨now, (Option.some.inj hc).symm⟩⟩
  · exact ⟨by simp, fun clock hc => ⟨now, (Option.some.inj hc).symm⟩⟩
  · exact ⟨by simp, by simp [Input.clock?]⟩

theorem turns_timely (hs : s.IsSteady) (unarmed : s.traffic?.isSome = true → s.negotiation = none)
    {gone : Nat → Bool}
    (written : ((s.step (.keepTime (Clock.steady now))).value.write
      (Clock.steady now) gone).value.2 = none)
    (hd : (s.after (turns now gone)).traffic? = some d) :
    (∀ p ∈ d.tracker.pending, p.isDue now = false)
      ∧ ∀ f ∈ d.writer.active, f.isLate (Clock.steady now) = false := by
  obtain ⟨c, hc, rfl⟩ := write_traffic (s := (s.step (.keepTime (Clock.steady now))).value) hd
  constructor
  · intro p hp
    have hterms := (Traffic.written_path (Clock.steady now) gone c).terms
    obtain ⟨q, hq, hterm⟩ := List.mem_map.1 (hterms (Tracker.mem_terms hp))
    have hsame : q.deadline = p.deadline := congrArg (·.2.2) hterm
    have hundue := keepTime_undue hs unarmed hc q hq
    simpa only [Pending.isDue, hsame] using hundue
  · refine Written.of_timely (Clock.steady now) gone c.writer c.tracker ?_
    simpa [Session.write, (traffic?_eq_some hc).1] using written

theorem turns_negotiation {gone : Nat → Bool} {n : Sleep}
    (h : (s.after (turns now gone)).negotiation = some n) : n.isOver (Clock.steady now) = false := by
  have hwritten : ((s.step (.keepTime (Clock.steady now))).value.write
      (Clock.steady now) gone).value.1.negotiation = some n := h
  rw [write_negotiation] at hwritten
  refine keepNegotiation_unover _ (s := s) ?_
  rw [← keepTime_negotiation]
  exact hwritten

theorem IsNew.onTime (hs : s.IsNew) (steady : s.timer = .present) (timed : ∀ i ∈ inputs, i.IsSteady)
    (own : (inputs.filterMap Input.caller?).Nodup) {gone : Nat → Bool}
    (written : ((s.after (inputs ++ [.keepTime (Clock.steady now)])).write
      (Clock.steady now) gone).value.2 = none) :
    s.OnTime (inputs ++ turns now gone) now (s.after (inputs ++ turns now gone)) := by
  have hbefore := hs.timed steady timed own
  have hafter : s.Timed (inputs ++ turns now gone) := by
    refine hs.timed steady (fun i hi => ?_) ?_
    · exact (List.mem_append.1 hi).elim (timed i) (turns_steady now gone i)
    · rw [List.filterMap_append, show (turns now gone).filterMap Input.caller? = [] from rfl,
        List.append_nil]
      exact own
  have hturns := after_append s inputs (turns now gone)
  rw [after_concat] at written
  have htimely (d : Traffic) (hd : (s.after (inputs ++ turns now gone)).traffic? = some d) :=
    turns_timely hbefore.steady (fun h => hs.unarmed (Option.some_get h).symm) written (hturns ▸ hd)
  constructor
  · intro n hn
    have hfirst : s.negotiation = some n :=
      hafter.negotiation.elim (fun hnone => by simp [hnone] at hn) fun hsame => hsame.symm.trans hn
    have hquiet := turns_negotiation (hturns ▸ hn)
    rw [Sleep.isOver_steady (hs.sleeps.2 n hfirst)] at hquiet
    exact ⟨hfirst, Nat.lt_of_not_le (of_decide_eq_false hquiet)⟩
  · intro t ht p hp
    obtain ⟨c, hc, rfl⟩ := traffic_of_tracker ht
    obtain ⟨start, options, hasked, hdeadline⟩ :=
      (hafter.traffic c hc).awaited p.seq p.sink p.deadline (Tracker.mem_terms hp)
    refine ⟨hdeadline.trans hasked.responseDue.symm, fun due hdue => ?_⟩
    simpa [Pending.isDue, hdue] using (htimely c hc).1 p hp
  · intro w hw f hf
    obtain ⟨c, hc, rfl⟩ := traffic_of_writer hw
    obtain ⟨sink, start, options, later, hasked, hbegun, htimeout⟩ := (hafter.traffic c hc).writing f.seq
      f.timeout (List.mem_map_of_mem (f := fun f : InFlight => (f.seq, f.timeout)) hf)
    refine ⟨sink, hasked.enrolled, ?_, ?_⟩
    · rw [hasked.writeDue hbegun, htimeout, Option.map_map]
      rfl
    · intro due hdue
      have hlate := (htimely c hc).2 f hf
      cases hspan : options.writeTimeout with
      | none => simp [htimeout, hspan] at hdue
      | some span =>
          obtain rfl : later + span = due := by simpa [htimeout, hspan] using hdue
          simpa [InFlight.isLate, htimeout, hspan, Sleep.isOver, Clock.steady] using hlate

end Session

end HttpSession
