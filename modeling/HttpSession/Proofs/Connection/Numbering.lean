import HttpSession.Proofs.Connection.Flag
import HttpSession.Proofs.Session.Registration

namespace HttpSession

open Happening (ofActions deeds worked)

def Event.caller? : Event → Option Nat
  | .dispatch envelope => some envelope.sink
  | _ => none

theorem Event.feed_caller (e : Event) (source : Nat) (frames : List Frame) (ended : Option Bool) :
    (e.feed source frames ended).caller? = e.caller? := by
  cases e <;> rfl

theorem Event.caller_of_plain {e : Event} (h : e.debts = []) : e.caller? = none := by
  cases e with
  | dispatch => simp [debts] at h
  | _ => rfl

def Connection.callers (c : Connection) : List Nat := c.queue.filterMap Event.caller?

theorem eq_of_paid_le_one {actions : List Action} {d : Debt} (h : paid actions d ≤ 1) {a b : Action}
    (ha : a ∈ actions) (hb : b ∈ actions) (hpa : a.pays? = some d) (hpb : b.pays? = some d) : a = b := by
  have hmem : ∀ x ∈ actions, x.pays? = some d → x ∈ actions.filter fun x => x.pays? == some d := by
    intro x hx hp
    exact List.mem_filter.2 ⟨hx, by simp [hp]⟩
  have hshort : (actions.filter fun x => x.pays? == some d).length ≤ 1 := by
    rw [← List.countP_eq_length_filter]
    refine Nat.le_trans (Nat.le_of_eq ?_) h
    rw [paid, List.count, List.countP_filterMap]
    refine List.countP_congr fun x _ => ?_
    cases x.pays? <;> simp
  have hina := hmem a ha hpa
  have hinb := hmem b hb hpb
  generalize (actions.filter fun x => x.pays? == some d) = paying at hina hinb hshort
  cases paying with
  | nil => simp at hina
  | cons x rest =>
      obtain rfl : rest = [] := List.length_eq_zero_iff.1 (by simpa using hshort)
      rw [List.mem_singleton.1 hina, List.mem_singleton.1 hinb]

namespace Attempt

variable {a b c : Attempt} {inputs : List Input} {log xs ys : List Entry} {clock : Clock}
  {gone : Nat → Bool} {n : Nat} {e : Event} {rest : List Event}

theorem Works.callers (h : Works a inputs log b) : b.connection.callers = a.connection.callers := by
  obtain ⟨es, -, hqueue, hclosed⟩ := h.posts
  have hnone : es.filterMap Event.caller? = [] :=
    List.filterMap_eq_nil_iff.2 fun e he => by rw [hclosed e he]; rfl
  rw [Connection.callers, hqueue, List.filterMap_append, hnone, List.append_nil]
  rfl

theorem input_caller (a : Attempt) (clock : Clock) (e : Event) :
    (a.input clock e).caller? = e.caller? := by
  cases e <;> rfl

theorem Chores.silent {s : Session} {chores : List Input} {crash : Option String}
    (h : Chores s clock gone chores crash) : ∀ i ∈ chores, i.caller? = none := by
  cases h <;> simp [Input.caller?]

theorem handle_told (a : Attempt) (clock : Clock) (e : Event) :
    a.connection.session.word (a.input clock e) ⊆ Entry.actions (a.handle clock e).log := by
  cases e with
  | dispatch envelope =>
      intro x hx
      obtain rfl := List.mem_singleton.1 hx
      simp [dispatch_eq]
  | _ => exact List.nil_subset _

structure Serves (a : Attempt) (log : List Entry) (b : Attempt) : Prop where
  told : a.connection.session.words (Entry.inputs log) ⊆ Entry.actions log
  line : ((Entry.inputs log).filterMap Input.caller? ++ b.connection.callers).Sublist a.connection.callers

namespace Serves

theorem refl (a : Attempt) : Serves a [] a := ⟨List.nil_subset _, .refl _⟩

theorem trans (hx : Serves a xs b) (heard : Hears a inputs xs b) (hy : Serves b ys c) :
    Serves a (xs ++ ys) c where
  told := by
    have htold := hy.told
    rw [heard.session, ← heard.heard] at htold
    rw [Entry.inputs_append, Entry.actions_append, Session.words_append]
    exact List.append_subset.2 ⟨List.Subset.trans hx.told (List.subset_append_left _ _),
      List.Subset.trans htold (List.subset_append_right _ _)⟩
  line := by
    rw [Entry.inputs_append, List.filterMap_append, List.append_assoc]
    exact (hy.line.append_left _).trans hx.line

theorem aside (h : Serves a log b) (hmore : Entry.inputs xs = [])
    (hc : c.connection.callers.Sublist b.connection.callers) : Serves a (log ++ xs) c where
  told := by
    rw [Entry.inputs_append, hmore, List.append_nil, Entry.actions_append]
    exact List.Subset.trans h.told (List.subset_append_left _ _)
  line := by
    rw [Entry.inputs_append, hmore, List.append_nil]
    exact (hc.append_left _).trans h.line

theorem dealing (h : Serves a log b) (d : Dealing) : Serves a (.dealing d :: log) b := ⟨h.told, h.line⟩

end Serves

theorem Works.serves (h : Works a inputs log b) (silent : ∀ i ∈ inputs, i.caller? = none) :
    Serves a log b where
  told := by
    rw [h.heard, Session.words_of_silent silent]
    exact List.nil_subset _
  line := by
    rw [h.heard, List.filterMap_eq_nil_iff.2 silent, h.callers]
    exact .refl _

theorem handle_serves (first : a.connection.queue = e :: rest) (clock : Clock) :
    Serves a (.dealing (.take e) :: ((a.pop rest).handle clock e).log)
      ((a.pop rest).handle clock e).value := by
  have hworks := (a.pop rest).handle_works clock e
  have hline : a.connection.callers = e.caller?.toList ++ (a.pop rest).connection.callers := by
    simp only [pop, Connection.callers, first, List.filterMap_cons]
    cases e.caller? <;> rfl
  constructor
  · rw [Entry.inputs_dealing, Entry.actions_dealing, hworks.heard]
    rw [Session.words, Session.words, List.append_nil]
    exact (a.pop rest).handle_told clock e
  · rw [Entry.inputs_dealing, hworks.heard, hworks.callers, hline, List.filterMap_cons, input_caller]
    cases e.caller? <;> exact .refl _

theorem Takes.serves {r : Attempt × Intake} (h : Takes clock n a log r) : Serves a log r.1 := by
  induction h with
  | interrupted | emptied => exact (Serves.refl _).dealing _
  | @deserted n a => exact (hear_works a (.closed a.promise)).serves (by simp [Input.caller?])
  | closed first => exact handle_serves first clock
  | @event n a e rest log r first other later ih =>
      exact (handle_serves first clock).trans
        (((a.pop rest).handle_works clock e).toHears.ofPop.dealing (.take e)) ih

theorem Polls.serves {r : Attempt × Outcome} (h : Polls a clock gone log r) : Serves a log r.1 := by
  cases h with
  | idle closed => exact .refl a
  | ended running takes =>
      exact (takes.serves.dealing .poll).aside (by simp [finish]) (List.nil_sublist _)
  | @onward log mid intake chores crash outcome running takes goes chore flag =>
      exact (takes.serves.dealing .poll).trans (takes.hears.dealing .poll)
        ((listen_works mid chores).serves chore.silent)

end Attempt

namespace Service

variable {s t : Service} {inputs : List Input}

structure InLine (s : Service) (inputs : List Input) : Prop where
  ascending : (inputs.filterMap Input.caller? ++ s.attempt.connection.callers).Pairwise (· < ·)
  asked : ∀ k ∈ inputs.filterMap Input.caller? ++ s.attempt.connection.callers, k < s.asked

namespace InLine

theorem serve (hs : s.InLine inputs) {more : List Input}
    (hline : (more.filterMap Input.caller? ++ t.attempt.connection.callers).Sublist
      s.attempt.connection.callers) (hasked : t.asked = s.asked) : t.InLine (inputs ++ more) := by
  have hsub := hline.append_left (inputs.filterMap Input.caller?)
  rw [← List.append_assoc, ← List.filterMap_append] at hsub
  constructor
  · exact hs.ascending.sublist hsub
  · intro k hk
    rw [hasked]
    exact hs.asked k (hsub.subset hk)

theorem ask (hs : s.InLine inputs) (options : Options) (request : Request) :
    (s.asks options request).value.InLine inputs := by
  unfold asks Connection.submit
  cases s.attempt.connection.isOpen with
  | false => exact ⟨hs.ascending, fun k hk => Nat.lt_succ_of_lt (hs.asked k hk)⟩
  | true =>
      have hline : (s.attempt.connection.post
            [.dispatch ⟨options, request, s.asked⟩]).value.callers
          = s.attempt.connection.callers ++ [s.asked] := by
        simp [Connection.callers, Connection.post, Event.caller?]
      have hall : inputs.filterMap Input.caller? ++ (s.attempt.connection.post
            [.dispatch ⟨options, request, s.asked⟩]).value.callers
          = (inputs.filterMap Input.caller? ++ s.attempt.connection.callers) ++ [s.asked] := by
        rw [hline, List.append_assoc]
      constructor
      · refine (congrArg (List.Pairwise (· < ·)) hall).mpr (List.pairwise_append.2 ?_)
        refine ⟨hs.ascending, List.pairwise_singleton _ _, ?_⟩
        intro k hk j hj
        rw [List.mem_singleton.1 hj]
        exact hs.asked k hk
      · intro k hk
        rcases List.mem_append.1 ((congrArg (k ∈ ·) hall).mp hk) with hk | hk
        · exact Nat.lt_succ_of_lt (hs.asked k hk)
        · rw [List.mem_singleton.1 hk]
          exact Nat.lt_succ_self _

end InLine

theorem InLine.meet (hs : s.InLine inputs) (o : Occasion) :
    (s.meet o).value.InLine (inputs ++ (s.meet o).inputs) := by
  rw [meet_inputs]
  cases o with
  | ask options request => exact (List.append_nil inputs).symm ▸ hs.ask options request
  | poll clock gone => exact hs.serve (s.polled_polls clock gone).serves.line rfl
  | drop crashed => exact hs.serve (List.nil_sublist _) rfl
  | tell events plain =>
      refine hs.serve ?_ rfl
      have hplain : events.filterMap Event.caller? = [] :=
        List.filterMap_eq_nil_iff.2 fun e he => Event.caller_of_plain (plain e he)
      simp only [Service.meet, told, mapConnection, Connection.send]
      cases s.attempt.connection.isOpen <;> simp [Connection.callers, Connection.post, hplain]
  | feed source frames ended =>
      refine hs.serve ?_ rfl
      simp [Service.meet, mapConnection, Connection.feed, Connection.callers, Input.caller?,
        List.filterMap_map, Event.feed_caller]
  | touch i outer =>
      refine hs.serve ?_ rfl
      cases i <;> simp [Input.isOuter] at outer <;> exact .refl _
  | hold | cut | promise => exact hs.serve (.refl _) rfl

theorem InLine.run (hs : s.InLine inputs) (occasions : List Occasion) :
    (s.run occasions).value.InLine (inputs ++ (s.run occasions).inputs) := by
  induction occasions generalizing s inputs with
  | nil => simpa [Service.run] using hs
  | cons o rest ih => simpa [Service.run] using ih (hs.meet o)

theorem meet_told (s : Service) (o : Occasion) :
    s.session.words (s.meet o).inputs ⊆ (s.meet o).actions := by
  have silent (h : ∀ i ∈ (s.meet o).inputs, i.caller? = none) :
      s.session.words (s.meet o).inputs ⊆ (s.meet o).actions := by
    rw [Session.words_of_silent h]
    exact List.nil_subset _
  cases o with
  | poll clock gone =>
      rw [meet_poll]
      exact (s.polled_polls clock gone).serves.told
  | touch i outer =>
      refine silent ?_
      rw [meet_inputs]
      intro j hj
      obtain rfl := List.mem_singleton.1 hj
      cases j <;> simp [Input.isOuter] at outer <;> rfl
  | _ => exact silent (by simp [meet_inputs, Input.caller?])

theorem run_told (s : Service) (occasions : List Occasion) :
    s.session.words (s.run occasions).inputs ⊆ (s.run occasions).actions := by
  induction occasions generalizing s with
  | nil => exact List.nil_subset _
  | cons o rest ih =>
      rw [run, Logged.inputs_bind, Logged.actions_bind, Session.words_append, ← (s.meet_hears o).session]
      exact List.append_subset.2 ⟨List.Subset.trans (s.meet_told o) (List.subset_append_left _ _),
        List.Subset.trans (ih _) (List.subset_append_right _ _)⟩

theorem start_inLine (session : Session) (id k : Nat) (closesAtOnce : Bool) (promise : Promise) :
    (start id k session closesAtOnce promise).InLine [] := by
  constructor <;> simp [start, Connection.new, Connection.callers]

theorem paid_le_one {session : Session} (hs : session.IsNew) (id k : Nat) (closesAtOnce : Bool)
    (promise : Promise) (occasions : List Occasion) (d : Debt) :
    paid ((start id k session closesAtOnce promise).run occasions).actions d ≤ 1 := by
  have hnone : Accounts (issued (start id k session closesAtOnce promise).asked) []
      (start id k session closesAtOnce promise).debts := by
    rw [start_debts hs]
    exact .refl
  have hsettles := (run_settles (start_isSound hs id k closesAtOnce promise) hnone occasions).2
  have hcount := hsettles.count d
  have hone := List.nodup_iff_count_le_one.1
    (issued_nodup ((start id k session closesAtOnce promise).run occasions).value.asked) d
  rw [List.nil_append] at hcount
  omega

theorem enrolled_run (s : Service) (occasions : List Occasion) :
    enrolled (ofActions (s.run occasions).actions)
      = enrolled (s.session.history (s.run occasions).inputs) := by
  have hdeeds (h : List Happening) : enrolled (ofActions (deeds h)) = enrolled h := by
    simp only [enrolled, ofActions, deeds, List.filterMap_map, List.filterMap_filterMap]
    refine List.filterMap_congr fun x _ => ?_
    cases x <;> rfl
  rw [← hdeeds (s.session.history _)]
  simp only [enrolled, ofActions, List.filterMap_map]
  refine (s.run_hears occasions).filterMap fun a ha => ?_
  cases a <;> simp [Action.isNotice] at ha <;> rfl

/-- Requests are numbered from one in the order in which they were sent, up to the ceiling. Who gets a
number waits for a response and is written, and hears that the session may be used again unless the
number was the last. A session that has said no once, when a protocol was agreed on, says no for good
and is left as it is by whoever comes later. -/
theorem numbered_in_turn {builder : Builder} (bounds : 0 < builder.ceiling ∧ builder.ceiling ≤ 1 <<< 29)
    {clock : Clock} {channel : Channel} {speaksHttp1 : Bool} {session : Session}
    (hb : builder.session clock channel speaksHttp1 = .ok session) (id k : Nat) (closesAtOnce : Bool)
    (promise : Promise) (occasions : List Occasion) :
    let first := start id k session closesAtOnce promise
    let r := first.run occasions
    let taken := enrolled (ofActions r.actions)
    taken.map Prod.fst = List.range' 1 taken.length
      ∧ (taken.map Prod.snd).Pairwise (· < ·)
      ∧ (∀ seq sink, (seq, sink) ∈ taken → seq ≤ builder.ceiling ∧ IsStreamed seq
        ∧ (∀ accepted, .accept sink accepted ∈ r.actions ↔ accepted = decide (seq < builder.ceiling))
        ∧ ∃ before clock options request behind,
          r.inputs = before ++ .dispatch clock options request sink :: behind
            ∧ (session.after before).Registers clock options request sink seq)
      ∧ ∀ before clock options request sink behind,
        r.inputs = before ++ .dispatch clock options request sink :: behind →
        let s := session.after before
        let d := s.dispatch clock options request sink
        (∀ accepted, .accept sink accepted ∈ r.actions ↔ accepted = d.value.2)
          ∧ (s.phase ≠ .negotiating → d.value.2 = false →
            ∀ more, ((session.after (before ++ [.dispatch clock options request sink])).after
              more).Refuses) := by
  intro first r taken
  have hnew := Builder.session_isNew hb
  have hceiling := Builder.session_ceiling hb
  have htaken : taken = enrolled (session.history r.inputs) :=
    first.enrolled_run occasions
  have hword : ∀ before clock options request sink behind,
      r.inputs = before ++ .dispatch clock options request sink :: behind →
      ∀ accepted, .accept sink accepted ∈ r.actions
        ↔ accepted = ((session.after before).dispatch clock options request sink).value.2 := by
    intro before clock options request sink behind hsplit
    have htold : .accept sink ((session.after before).dispatch clock options request sink).value.2
        ∈ r.actions := by
      refine first.run_told occasions ?_
      rw [hsplit]
      exact session.word_mem_words before _ behind (List.mem_singleton_self _)
    intro accepted
    constructor
    · intro hin
      have hone := paid_le_one hnew id k closesAtOnce promise occasions (.word sink)
      exact (Action.accept.inj (eq_of_paid_le_one hone hin htold rfl rfl)).2
    · rintro rfl
      exact htold
  refine ⟨?_, ?_, ?_, ?_⟩
  · rw [htaken]
    exact hnew.numbers _
  · rw [htaken]
    have hline := ((start_inLine session id k closesAtOnce promise).run occasions).ascending
    rw [List.nil_append] at hline
    exact (List.pairwise_append.1 hline).1.sublist (hnew.callers _)
  · intro seq sink hin
    rw [htaken] at hin
    have hle : seq ≤ builder.ceiling := hceiling ▸ hnew.enrolled_le _ _ hin
    have hseq : seq ∈ List.range' 1 (enrolled (session.history r.inputs)).length := by
      rw [← hnew.numbers]
      exact List.mem_map_of_mem (f := Prod.fst) hin
    have hpos : 0 < seq := (List.mem_range'_1.1 hseq).1
    have hstreamed := isStreamed hpos (Nat.le_trans hle bounds.2)
    -- The number was given out when the request was handed in.
    obtain ⟨xs, ys, hsplit⟩ := List.append_of_mem (mem_enrolled.1 hin)
    obtain ⟨before, i, behind, _, _, hheard, hactions, -⟩ := Session.history_split hsplit
    have henroll : .enroll seq sink ∈ ((session.after before).respond i).actions := by
      simp [hactions]
    obtain ⟨clock, options, request, rfl⟩ := hnew.handed_of_enroll henroll
    obtain ⟨-, hregisters⟩ := hnew.registers (by simpa [Session.respond] using henroll)
    refine ⟨hle, hstreamed, ?_, before, clock, options, request, behind, hheard, hregisters⟩
    intro accepted
    rw [hword before clock options request sink behind hheard, hregisters.word,
      Session.after_ceiling, hceiling]
  · intro before clock options request sink behind hsplit s d
    refine ⟨hword before clock options request sink behind hsplit, ?_⟩
    intro hn hno more
    have hnone := Session.takesNone_of_refusal hn hno
    exact Session.refuses_of_takesNone (hnew.takesNone_lasts hnone more)

def crowded : List Occasion :=
  agreed ++ [.ask .default .bare, .ask .default .bare, .ask .default .bare, .poll (.steady 0) fun _ => false]

theorem numbered_in_turn_crowded :
    let first := start 0 0 (.blank 2) false .new
    let r := first.run crowded
    enrolled (ofActions r.actions) = [(1, 0), (2, 1)]
      ∧ (∀ accepted, .accept 0 accepted ∈ r.actions ↔ accepted = true)
      ∧ (∀ accepted, .accept 1 accepted ∈ r.actions ↔ accepted = false)
      ∧ ∃ before clock options request behind,
        r.inputs = before ++ .dispatch clock options request 1 :: behind
          ∧ ((Session.blank 2).after before).phase ≠ .negotiating
          ∧ ∀ more, (((Session.blank 2).after (before ++ [.dispatch clock options request 1])).after
            more).Refuses := by
  intro first r
  have hb : Builder.session { Builder.new with ceiling := 2 } (.steady 0)
      (.new (.v4 #v[127, 0, 0, 1] 80) true true) true = .ok (.blank 2) := rfl
  obtain ⟨-, -, htaken, hheard⟩ := numbered_in_turn (by decide) hb 0 0 false .new crowded
  have hall : enrolled (ofActions r.actions) = [(1, 0), (2, 1)] := by decide +kernel
  have hstart : ((Session.blank 2).after (r.inputs.take 5)).phase ≠ .negotiating := by
    decide +kernel
  have hno : .accept 1 false ∈ r.actions := by decide +kernel
  have hplace : r.inputs[5]?.bind Input.caller? = some 1 := by decide +kernel
  obtain ⟨i, behind, hsplit, hcaller⟩ := split_at hplace
  obtain ⟨clock, options, request, rfl⟩ := Input.dispatch_of_caller hcaller
  obtain ⟨hword, hrefuses⟩ := hheard _ clock options request 1 behind hsplit
  refine ⟨hall, ?_, ?_, r.inputs.take 5, clock, options, request, behind, hsplit, hstart, ?_⟩
  · exact (htaken 1 0 (by rw [hall]; simp)).2.2.1
  · exact (htaken 2 1 (by rw [hall]; simp)).2.2.1
  · exact hrefuses hstart ((hword false).1 hno).symm

end Service

end HttpSession
