import HttpSession.Proofs.Session.Establishment

namespace HttpSession

open Happening (ofActions deeds)

inductive Phase.Leads : Phase → Phase → Prop
  | wait : Leads .negotiating .negotiating
  | establish (w : Writer) (t : Tracker) : Leads .negotiating (.established w t)
  | fail : Leads .negotiating .closed
  | work (w v : Writer) (t u : Tracker) : Leads (.established w t) (.established v u)
  | fall (w : Writer) (t : Tracker) : Leads (.established w t) .closed
  | rest : Leads .closed .closed

namespace Phase.Leads

theorem refl (p : Phase) : p.Leads p := by
  cases p with
  | negotiating => exact .wait
  | established w t => exact .work w w t t
  | closed => exact .rest

theorem trans {p q r : Phase} (hq : p.Leads q) (hr : q.Leads r) : p.Leads r := by
  cases hq with
  | wait => exact hr
  | establish w t =>
      cases hr with
      | work => exact .establish _ _
      | fall => exact .fail
  | work w v t u =>
      cases hr with
      | work => exact .work _ _ _ _
      | fall => exact .fall _ _
  | fail | fall | rest =>
      cases hr with
      | rest => constructor

end Phase.Leads

namespace Session

variable {s : Session} {i : Input} {inputs : List Input}

theorem respond_leads (s : Session) (i : Input) : s.phase.Leads (s.respond i).value.phase := by
  cases h : s.phase with
  | negotiating =>
      cases (s.respond i).value.phase with
      | negotiating => exact .wait
      | established w t => exact .establish w t
      | closed => exact .fail
  | established w t =>
      rcases respond_established (traffic?_of_phase h) i with ⟨d, hd, -⟩ | hends
      · rw [(traffic?_eq_some hd).1]
        exact .work w _ t _
      · rw [hends.closed]
        exact .fall w t
  | closed =>
      rw [respond_closed h]
      exact .rest

theorem after_leads (s : Session) (inputs : List Input) : s.phase.Leads (s.after inputs).phase := by
  induction inputs generalizing s with
  | nil => exact .refl _
  | cons i rest ih => exact (respond_leads s i).trans (ih (s.step i).value)

theorem started_of_leads {p q : Phase} (h : p.Leads q) (hp : p ≠ .negotiating) : q ≠ .negotiating := by
  cases h with
  | wait | establish | fail => exact absurd rfl hp
  | work | fall | rest => exact fun he => nomatch he

theorem after_protocol (h : s.phase ≠ .negotiating) (inputs : List Input) :
    (s.after inputs).protocol = s.protocol := by
  induction inputs generalizing s with
  | nil => rfl
  | cons i rest ih =>
      rw [after_cons, ih (s := (s.step i).value) (respond_started h i)]
      exact respond_protocol h i

theorem mapWriter_negotiation (s : Session) (f : Writer → Writer) :
    (s.mapWriter f).negotiation = s.negotiation := by
  unfold mapWriter
  split <;> rfl

theorem dispatch_negotiation (s : Session) (clock : Clock) (options : Options) (request : Request)
    (sink : Nat) : (s.dispatch clock options request sink).value.1.negotiation = s.negotiation := by
  have hsame := deadlineOf_snd s clock options
  unfold Session.dispatch
  split
  · split
    · generalize s.deadlineOf clock options = due at hsame ⊢
      dsimp only
      rw [hsame]
      split <;> rfl
    · rfl
  · rfl

theorem keepTime_negotiation (s : Session) (clock : Clock) :
    (s.keepTime clock).value.1.negotiation = (s.keepNegotiation clock).value.negotiation := by
  cases h : s.traffic? with
  | none => rw [keepTime_of_none h]
  | some c => rw [keepTime_of_established (traffic?_eq_some h).1]

theorem keepNegotiation_of_none (h : s.negotiation = none) (clock : Clock) :
    s.keepNegotiation clock = pure s := by
  simp [keepNegotiation, h]

theorem negotiation_of_respond (h : (s.respond i).value.negotiation.isSome = true) :
    s.negotiation.isSome = true := by
  cases i with
  | negotiated promise reachable p =>
      by_cases hn : s.phase = .negotiating
      · obtain ⟨fault, he⟩ | ⟨encoder, -, hv, -⟩ := onNegotiated_cases hn promise reachable p
        · simp [respond, he] at h
        · simp [respond, hv] at h
      · rwa [respond, onNegotiated_ignored hn] at h
  | negotiationFailed fault => simp [respond] at h
  | dropped reason => simp [respond] at h
  | closed promise =>
      cases hc : s.transportClosed with
      | true => rwa [respond, onTransportClosed_again hc] at h
      | false => simp [respond, onTransportClosed_value hc] at h
  | dispatch clock options request sink =>
      rw [← dispatch_negotiation s clock options request sink]
      exact h
  | keepTime clock =>
      have h : (s.keepTime clock).value.1.negotiation.isSome = true := h
      rw [keepTime_negotiation, keepNegotiation] at h
      split at h
      · simp [onNegotiationTimeout, cancelNegotiationTimeout] at h
      · exact h
  | response stream part =>
      simp only [respond, onResponse] at h
      split at h <;> exact h
  | message m =>
      simp only [respond, onMessage] at h
      split at h <;> exact h
  | write clock gone =>
      simp only [respond, Session.write] at h
      split at h <;> exact h
  | wire f => simpa [respond, onWire, mapWriter_negotiation] using h
  | sink f => simpa [respond, onFrames, mapWriter_negotiation] using h
  | feed source frames ended => simpa [respond, Session.feed, mapWriter_negotiation] using h
  | fire => simpa [respond, Session.fire, mapWriter_negotiation] using h
  | _ => exact h

theorem after_negotiation (h : s.negotiation = none) (inputs : List Input) :
    (s.after inputs).negotiation = none := by
  induction inputs generalizing s with
  | nil => exact h
  | cons i rest ih =>
      refine ih (s := (s.step i).value) ?_
      have hnone : ¬(s.respond i).value.negotiation.isSome = true := fun hsome => by
        simpa [h] using negotiation_of_respond hsome
      simpa [step, felt] using hnone

theorem respond_armed (hn : s.phase = .negotiating)
    (h : (s.respond i).value.negotiation.isSome = true) :
    (s.respond i).value.phase = .negotiating ∧ verdicts (s.respond i).actions = [] := by
  have hnone : s.traffic? = none := traffic?_eq_none.2 (.inl hn)
  rw [respond_verdicts]
  cases i with
  | negotiated promise reachable p =>
      obtain ⟨fault, he⟩ | ⟨encoder, -, hv, -⟩ := onNegotiated_cases hn promise reachable p
      · simp [respond, he] at h
      · simp [respond, hv] at h
  | negotiationFailed fault => simp [respond] at h
  | dropped reason => simp [respond] at h
  | closed promise =>
      cases hc : s.transportClosed with
      | true =>
          rw [respond, onTransportClosed_again hc]
          exact ⟨hn, by simp [verdict, hc]⟩
      | false => simp [respond, onTransportClosed_value hc] at h
  | keepTime clock =>
      refine ⟨(respond_resting hnone rfl).1.trans hn, ?_⟩
      have h : (s.keepTime clock).value.1.negotiation.isSome = true := h
      rw [keepTime_negotiation, keepNegotiation] at h
      split at h
      · simp [onNegotiationTimeout, cancelNegotiationTimeout] at h
      · rename_i hquiet
        rw [verdict, if_neg hquiet]
  | _ => exact ⟨(respond_resting hnone rfl).1.trans hn, rfl⟩

theorem IsNew.armed (hs : s.IsNew) (h : (s.after inputs).negotiation.isSome = true) :
    (s.after inputs).phase = .negotiating ∧ verdicts (deeds (s.history inputs)) = [] := by
  induction inputs using List.reverseRecOn with
  | nil => exact ⟨hs.start.1, rfl⟩
  | append_singleton inputs i ih =>
      rw [after_concat] at h ⊢
      have h : ((s.after inputs).respond i).value.negotiation.isSome = true := h
      obtain ⟨hn, hquiet⟩ := ih (negotiation_of_respond h)
      obtain ⟨hphase, hnow⟩ := respond_armed hn h
      refine ⟨hphase, ?_⟩
      rw [history_append, Happening.deeds_append, verdicts_append, hquiet]
      simpa using hnow

theorem agreed_of_respond (hn : s.phase = .negotiating) {w : Writer} {t : Tracker}
    (h : (s.respond i).value.phase = .established w t) :
    ∃ promise reachable p, i = .negotiated promise reachable p
      ∧ (s.respond i).value.protocol = some p := by
  have hnone : s.traffic? = none := traffic?_eq_none.2 (.inl hn)
  have resting (hi : i.isTurning = false) : False := by
    rw [(respond_resting hnone hi).1, hn] at h
    simp at h
  cases i with
  | negotiated promise reachable p =>
      refine ⟨promise, reachable, p, rfl, ?_⟩
      obtain ⟨fault, he⟩ | ⟨encoder, -, hv, -⟩ := onNegotiated_cases hn promise reachable p
      · simp [respond, he] at h
      · rw [respond, hv]
        rfl
  | negotiationFailed fault => simp [respond] at h
  | dropped reason => simp [respond] at h
  | closed promise =>
      cases hc : s.transportClosed with
      | true => simp [respond, onTransportClosed_again hc, hn] at h
      | false => simp [respond, onTransportClosed_value hc] at h
  | _ => exact (resting rfl).elim

structure Agrees (s : Session) (before : List Input) (i : Input) : Prop where
  negotiating : (s.after before).phase = .negotiating
  established : ∃ w t, (s.after (before ++ [i])).phase = .established w t

theorem Agrees.started {before : List Input} (h : s.Agrees before i) (more : List Input) :
    (s.after (before ++ i :: more)).phase ≠ .negotiating := by
  obtain ⟨w, t, hphase⟩ := h.established
  have hstarted : (s.after (before ++ [i])).phase ≠ .negotiating := by simp [hphase]
  rw [List.append_cons, after_append]
  exact started_of_leads (after_leads _ more) hstarted

theorem Agrees.protocol {before : List Input} {promise : Promise} {reachable : Bool} {p : Protocol}
    (h : s.Agrees before (.negotiated promise reachable p)) (more : List Input) :
    (s.after (before ++ .negotiated promise reachable p :: more)).protocol = some p := by
  obtain ⟨w, t, hphase⟩ := h.established
  have hstarted : (s.after (before ++ [.negotiated promise reachable p])).phase ≠ .negotiating := by
    simp [hphase]
  rw [List.append_cons, after_append, after_protocol hstarted]
  rw [after_concat] at hphase ⊢
  obtain ⟨_, _, q, hi, hq⟩ := agreed_of_respond h.negotiating hphase
  obtain ⟨-, -, rfl⟩ := Input.negotiated.inj hi
  exact hq

theorem Agrees.first {before earlier more later : List Input} {j : Input} (h : s.Agrees before i)
    (hj : s.Agrees earlier j) (hsplit : before ++ i :: more = earlier ++ j :: later) :
    ∃ tail, before = earlier ++ tail := by
  rcases List.append_eq_append_iff.1 hsplit with ⟨tail, rfl, htail⟩ | ⟨tail, rfl, htail⟩
  · cases tail with
    | nil => exact ⟨[], by simp⟩
    | cons k rest =>
        obtain ⟨rfl, -⟩ := List.cons.inj htail
        exact absurd hj.negotiating (h.started rest)
  · exact ⟨tail, rfl⟩

theorem IsNew.agreement (hs : s.IsNew) {p : Protocol} (h : (s.after inputs).protocol = some p) :
    ∃ before promise reachable more, inputs = before ++ .negotiated promise reachable p :: more
      ∧ s.Agrees before (.negotiated promise reachable p) := by
  induction inputs using List.reverseRecOn with
  | nil => simp [hs.start.2.2.1] at h
  | append_singleton inputs i ih =>
      by_cases hn : (s.after inputs).phase = .negotiating
      · rw [after_concat] at h
        have h : ((s.after inputs).respond i).value.protocol = some p := h
        have hsilent := (hs.untouched hn).2
        rcases respond_negotiating hn i with ⟨-, -, hsame⟩ | ⟨-, hsame⟩ | ⟨q, encoder, -, -, ht⟩
        · simp [hsame, hsilent] at h
        · simp [hsame, hsilent] at h
        · obtain ⟨hphase, -⟩ := traffic?_eq_some ht
          obtain ⟨promise, reachable, q, rfl, hq⟩ := agreed_of_respond hn hphase
          obtain rfl := Option.some.inj (hq.symm.trans h)
          refine ⟨inputs, promise, reachable, [], rfl, hn, ?_⟩
          rw [after_concat]
          exact ⟨_, _, hphase⟩
      · rw [after_append, after_protocol hn] at h
        obtain ⟨before, promise, reachable, more, rfl, hagrees⟩ := ih h
        exact ⟨before, promise, reachable, more ++ [i], by simp, hagrees⟩

structure Negotiates (s : Session) (inputs : List Input) : Prop where
  forward : ∀ before between more, inputs = before ++ between ++ more →
    (s.after before).phase.Leads (s.after (before ++ between)).phase
  silent : (s.after inputs).phase = .negotiating → (s.after inputs).protocol = none
  spoken : ∀ w t, (s.after inputs).phase = .established w t → (s.after inputs).protocol ≠ none
  agreed : ∀ p, (s.after inputs).protocol = some p ↔
    ∃ before promise reachable more, inputs = before ++ .negotiated promise reachable p :: more
      ∧ s.Agrees before (.negotiated promise reachable p)
  once : ∀ before i more earlier j later, inputs = before ++ i :: more →
    inputs = earlier ++ j :: later → s.Agrees before i → s.Agrees earlier j → before = earlier
  armed : (s.after inputs).negotiation.isSome = true →
    (s.after inputs).phase = .negotiating ∧ (s.after inputs).protocol = none
      ∧ verdicts (deeds (s.history inputs)) = []
  settled : ∀ before more, inputs = before ++ more →
    (s.after before).phase ≠ .negotiating ∨ verdicts (deeds (s.history before)) ≠ [] →
    (s.after inputs).negotiation = none
      ∧ ∀ clock, (s.after inputs).keepNegotiation clock = pure (s.after inputs)

theorem IsNew.negotiates (hs : s.IsNew) (inputs : List Input) : s.Negotiates inputs where
  forward before between _ _ := by
    rw [after_append]
    exact after_leads _ between
  silent hn := (hs.untouched hn).2
  spoken w t hphase := by
    obtain ⟨p, hp, -⟩ := (hs.established inputs (traffic?_of_phase hphase)).2
    simp [hp]
  agreed p := by
    constructor
    · exact hs.agreement
    · rintro ⟨before, promise, reachable, more, rfl, hagrees⟩
      exact hagrees.protocol more
  once before i more earlier j later hi hj hbefore hearlier := by
    have hsplit := hi.symm.trans hj
    obtain ⟨tail, htail⟩ := hbefore.first hearlier hsplit
    obtain ⟨rest, hrest⟩ := hearlier.first hbefore hsplit.symm
    have hlength := congrArg List.length (hrest.trans (congrArg (· ++ rest) htail))
    simp only [List.length_append] at hlength
    obtain rfl : tail = [] := List.length_eq_zero_iff.1 (by omega)
    simpa using htail
  armed h := by
    obtain ⟨hn, hquiet⟩ := hs.armed h
    exact ⟨hn, (hs.untouched hn).2, hquiet⟩
  settled before more hsplit h := by
    have hbefore : (s.after before).negotiation = none := by
      by_contra hsome
      obtain ⟨hn, hquiet⟩ := hs.armed (Option.isSome_iff_ne_none.2 hsome)
      rcases h with h | h
      · exact h hn
      · exact h hquiet
    have hnone : (s.after inputs).negotiation = none := by
      rw [hsplit, after_append]
      exact after_negotiation hbefore more
    exact ⟨hnone, keepNegotiation_of_none hnone⟩

end Session

end HttpSession
