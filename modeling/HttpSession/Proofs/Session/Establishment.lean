import HttpSession.Proofs.Session.Availability

namespace HttpSession

open Happening (ofActions deeds)

def Action.isConnect : Action → Bool
  | .call (.connect _ _ _) => true
  | _ => false

theorem Action.isVerdict_of_isConnect (a : Action) (h : a.isConnect = true) : a.isVerdict = true := by
  cases a with
  | call c =>
      cases c with
      | connect => rfl
      | _ => simp [isConnect] at h
  | _ => simp [isConnect] at h

theorem count_verdicts (actions : List Action) : (verdicts actions).count .offer = actions.count .offer :=
  List.count_filter rfl

theorem countP_connects {p : Action → Bool} (h : ∀ a, a.isConnect = true → p a = true)
    (actions : List Action) :
    (actions.filter p).countP Action.isConnect = actions.countP Action.isConnect := by
  rw [List.countP_filter]
  refine List.countP_congr fun a _ => ?_
  rw [Bool.and_eq_true]
  exact ⟨And.left, fun hc => ⟨hc, h a hc⟩⟩

theorem Channel.after_address (c : Channel) (actions : List Action) :
    (c.after actions).address = c.address := by
  unfold after
  induction actions generalizing c with
  | nil => rfl
  | cons a rest ih =>
      rw [List.foldl_cons, ih]
      split <;> rfl

namespace Session

variable {s : Session} {i : Input} {inputs : List Input}

theorem respond_started (h : s.phase ≠ .negotiating) (i : Input) :
    (s.respond i).value.phase ≠ .negotiating := by
  cases ht : s.traffic? with
  | none =>
      have hover := respond_closed ((traffic?_eq_none.1 ht).resolve_left h) i
      simp [hover]
  | some c =>
      rcases respond_established ht i with ⟨d, hd, -⟩ | hends
      · simp [(traffic?_eq_some hd).1]
      · simp [hends.closed]

theorem closed_of_respond (h : s.transportClosed = true) (i : Input) :
    (s.respond i).value.transportClosed = true := by
  rw [← Bool.not_eq_false]
  exact fun hopen => absurd (h.symm.trans (open_of_respond hopen)) (by decide)

theorem connect_of_isConnect {a : Action} (ha : a ∈ (s.respond i).actions) (hc : a.isConnect = true) :
    ∃ promise, i = .closed promise ∧ s.transportClosed = false ∧ s.status.fallback = true
      ∧ a = .call (.connect s.channel.address .h1c promise.settled) := by
  cases a with
  | call c =>
      cases c with
      | connect address protocol settled =>
          obtain ⟨promise, rfl, hopen, hfallback, rfl, rfl, rfl⟩ :=
            connect_of_verdict (mem_verdict ha rfl)
          exact ⟨promise, rfl, hopen, hfallback, rfl⟩
      | _ => simp [Action.isConnect] at hc
  | _ => simp [Action.isConnect] at hc

theorem offers_of_started (h : s.phase ≠ .negotiating) (inputs : List Input) :
    (deeds (s.history inputs)).count .offer = 0 := by
  induction inputs generalizing s with
  | nil => rfl
  | cons i rest ih =>
      have hnone : (s.respond i).actions.count .offer = 0 := by
        refine List.count_eq_zero.2 fun hm => ?_
        obtain ⟨_, _, _, -, hn, -⟩ := offer_of_verdict (mem_verdict hm rfl)
        exact h hn
      have hrest := ih (s := (s.step i).value) (respond_started h i)
      simp [hnone, hrest]

theorem offers_le_one (s : Session) (inputs : List Input) :
    (deeds (s.history inputs)).count .offer ≤ 1 := by
  induction inputs generalizing s with
  | nil => simp [deeds]
  | cons i rest ih =>
      have hnow : (s.respond i).actions.count .offer ≤ 1 := by
        rw [← count_verdicts, respond_verdicts]
        exact Nat.le_trans List.count_le_length (s.verdict_length_le i)
      simp only [history_cons, step_actions, List.cons_append, Happening.deeds_cons_input,
        Happening.deeds_append, Happening.deeds_ofActions, List.count_append]
      by_cases hm : .offer ∈ (s.respond i).actions
      · obtain ⟨promise, p, spoken, rfl, hn, hspeak⟩ := offer_of_verdict (mem_verdict hm rfl)
        have hspeak : s.cancelNegotiationTimeout.speak p = .ok spoken := hspeak
        have hstarted : (s.step (.negotiated promise true p)).value.phase ≠ .negotiating := by
          simp [step, felt, respond, onNegotiated, hn, hspeak]
        rw [offers_of_started hstarted]
        exact hnow
      · rw [List.count_eq_zero.2 hm, Nat.zero_add]
        exact ih _

theorem connects_of_closed (h : s.transportClosed = true) (inputs : List Input) :
    (deeds (s.history inputs)).countP Action.isConnect = 0 := by
  induction inputs generalizing s with
  | nil => rfl
  | cons i rest ih =>
      have hnone : (s.respond i).actions.countP Action.isConnect = 0 := by
        refine List.countP_eq_zero.2 fun a ha hc => ?_
        obtain ⟨_, -, hopen, -⟩ := connect_of_isConnect ha hc
        exact absurd (h.symm.trans hopen) (by decide)
      have hover : (s.step i).value.transportClosed = true := closed_of_respond h i
      simp [hnone, ih hover]

theorem connects_le_one (s : Session) (inputs : List Input) :
    (deeds (s.history inputs)).countP Action.isConnect ≤ 1 := by
  induction inputs generalizing s with
  | nil => simp [deeds]
  | cons i rest ih =>
      have hnow : (s.respond i).actions.countP Action.isConnect ≤ 1 := by
        rw [← countP_connects Action.isVerdict_of_isConnect, ← verdicts, respond_verdicts]
        exact Nat.le_trans List.countP_le_length (s.verdict_length_le i)
      simp only [history_cons, step_actions, List.cons_append, Happening.deeds_cons_input,
        Happening.deeds_append, Happening.deeds_ofActions, List.countP_append]
      by_cases hm : ∃ a ∈ (s.respond i).actions, a.isConnect = true
      · obtain ⟨a, ha, hc⟩ := hm
        obtain ⟨promise, rfl, hopen, -⟩ := connect_of_isConnect ha hc
        have hover : (s.step (.closed promise)).value.transportClosed = true := by
          simp [step, felt, respond, onTransportClosed_value hopen]
        rw [connects_of_closed hover]
        exact hnow
      · rw [List.countP_eq_zero.2 fun a ha hc => hm ⟨a, ha, hc⟩, Nat.zero_add]
        exact ih _

theorem mapWriter_channel (s : Session) (f : Writer → Writer) : (s.mapWriter f).channel = s.channel := by
  unfold mapWriter
  split <;> rfl

theorem dispatch_channel (s : Session) (clock : Clock) (options : Options) (request : Request)
    (sink : Nat) : (s.dispatch clock options request sink).value.1.channel = s.channel := by
  have hsame := deadlineOf_snd s clock options
  unfold Session.dispatch
  split
  · split
    · generalize s.deadlineOf clock options = due at hsame ⊢
      dsimp only
      rw [hsame]
      split <;> rfl
    · rfl
  · rfl

theorem keepTime_channel (s : Session) (clock : Clock) :
    (s.keepTime clock).value.1.channel = s.channel := by
  have hsame := keepNegotiation_value s clock
  cases h : s.traffic? with
  | none =>
      rw [keepTime_of_none h]
      dsimp only
      rw [hsame]
  | some c =>
      rw [keepTime_of_established (traffic?_eq_some h).1]
      dsimp only
      rw [hsame]

theorem respond_address (s : Session) (i : Input) :
    (s.respond i).value.channel.address = s.channel.address := by
  cases i with
  | negotiated promise reachable p =>
      by_cases h : s.phase = .negotiating
      · obtain ⟨fault, he⟩ | ⟨encoder, -, hv, -⟩ := onNegotiated_cases h promise reachable p
        · rw [respond, he, onNegotiationFailed_value]
          rfl
        · rw [respond, hv]
      · rw [respond, onNegotiated_ignored h]
  | negotiationFailed fault => rw [respond, onNegotiationFailed_value]
  | dropped reason => rw [respond, abandon_value]
  | closed promise =>
      cases hc : s.transportClosed with
      | true => rw [respond, onTransportClosed_again hc]
      | false => rw [respond, onTransportClosed_value hc]
  | dispatch clock options request sink =>
      exact congrArg Channel.address (dispatch_channel s clock options request sink)
  | keepTime clock => exact congrArg Channel.address (keepTime_channel s clock)
  | response stream part =>
      simp only [respond, onResponse]
      split <;> rfl
  | message m =>
      simp only [respond, onMessage]
      split <;> rfl
  | write clock gone =>
      simp only [respond, Session.write]
      split <;> rfl
  | wire f => simp [respond, onWire, mapWriter_channel]
  | sink f => simp [respond, onFrames, mapWriter_channel]
  | feed source frames ended => simp [respond, Session.feed, mapWriter_channel]
  | fire => simp [respond, Session.fire, mapWriter_channel]
  | _ => rfl

theorem after_address (s : Session) (inputs : List Input) :
    (s.after inputs).channel.address = s.channel.address := by
  induction inputs generalizing s with
  | nil => rfl
  | cons i rest ih =>
      rw [after_cons, ih]
      exact (Channel.after_address _ _).trans (respond_address s i)

structure Establishes (s : Session) (inputs : List Input) : Prop where
  offers : (deeds (s.history inputs)).count .offer ≤ 1
  connects : (deeds (s.history inputs)).countP Action.isConnect ≤ 1
  offer : ∀ before i behind, inputs = before ++ i :: behind →
    .offer ∈ ((s.after before).respond i).actions →
    ∃ promise p, i = .negotiated promise true p ∧ (s.after before).phase = .negotiating
      ∧ (s.after (before ++ [i])).traffic?.isSome = true ∧ (s.after (before ++ [i])).protocol = some p
  unwanted : ∀ before promise reachable p behind,
    inputs = before ++ .negotiated promise reachable p :: behind →
    (s.after before).phase = .negotiating → (reachable && promise.isWanted) = false →
    .call .close ∈ ((s.after before).respond (.negotiated promise reachable p)).actions
  connect : ∀ before i behind a, inputs = before ++ i :: behind →
    a ∈ ((s.after before).respond i).actions → a.isConnect = true →
    ∃ promise, i = .closed promise ∧ (s.after before).transportClosed = false
      ∧ (s.after before).status.fallback = true
      ∧ a = .call (.connect s.channel.address .h1c promise.settled)

theorem close_of_unwanted (h : s.phase = .negotiating) {promise : Promise} {reachable : Bool}
    (hw : (reachable && promise.isWanted) = false) (p : Protocol) :
    .call .close ∈ (s.onNegotiated promise reachable p).actions := by
  simp only [onNegotiated, h, hw]
  split
  · simp [onNegotiationFailed]
  · simp

theorem establishes (s : Session) (inputs : List Input) : s.Establishes inputs where
  offers := s.offers_le_one inputs
  connects := s.connects_le_one inputs
  offer before i behind _ hm := by
    obtain ⟨promise, p, spoken, rfl, hn, hspeak⟩ := offer_of_verdict (mem_verdict hm rfl)
    have hspeak : (s.after before).cancelNegotiationTimeout.speak p = .ok spoken := hspeak
    rw [after_concat]
    refine ⟨promise, p, rfl, hn, ?_, ?_⟩ <;>
      simp [step, felt, respond, onNegotiated, hn, hspeak, traffic?, protocol]
  unwanted before promise reachable p behind _ hn hw := close_of_unwanted hn hw p
  connect before i behind a _ hm hc := by
    obtain ⟨promise, rfl, hopen, hfallback, rfl⟩ := connect_of_isConnect hm hc
    exact ⟨promise, rfl, hopen, hfallback, by rw [after_address]⟩

end Session

end HttpSession
