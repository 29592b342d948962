import HttpSession.Proofs.Session.Availability
import HttpSession.Proofs.Session.Failure

namespace HttpSession

open Happening (ofActions deeds)

def Input.caller? : Input → Option Nat
  | .dispatch _ _ _ caller => some caller
  | _ => none

theorem Input.dispatch_of_caller {i : Input} {sink : Nat} (h : i.caller? = some sink) :
    ∃ clock options request, i = .dispatch clock options request sink := by
  cases i with
  | dispatch clock options request caller =>
      obtain rfl := Option.some.inj h
      exact ⟨clock, options, request, rfl⟩
  | _ => simp [caller?] at h

theorem Input.debts_eq_caller (i : Input) : i.debts = i.caller?.toList.map .reply := by
  cases i <;> rfl

theorem mem_enrolled {h : List Happening} {seq sink : Nat} :
    (seq, sink) ∈ enrolled h ↔ .action (.enroll seq sink) ∈ h := by
  simp only [enrolled, List.mem_filterMap]
  constructor
  · rintro ⟨x, hx, he⟩
    cases x with
    | input => simp [Happening.enrolled?] at he
    | action a =>
        cases a with
        | enroll =>
            obtain ⟨rfl, rfl⟩ : _ ∧ _ := by simpa [Happening.enrolled?] using he
            exact hx
        | _ => simp [Happening.enrolled?] at he
  · intro hx
    exact ⟨_, hx, rfl⟩

theorem mem_enrolled_input {i : Input} {actions : List Action} {seq sink : Nat} :
    (seq, sink) ∈ enrolled (.input i :: ofActions actions) ↔ .enroll seq sink ∈ actions := by
  simp [mem_enrolled]

namespace Traffic

variable {c d : Traffic} {h x : List Happening} {seq sink : Nat}

theorem Reached.enrolled_handed (hr : Reached h c) (hp : Path Move c x d)
    (he : (seq, sink) ∈ enrolled x) :
    ∃ clock options request, .input (.dispatch clock options request sink) ∈ x := by
  induction hp with
  | refl => simp at he
  | snoc hq hm ih =>
      rw [enrolled_append, List.mem_append] at he
      rcases he with he | he
      · obtain ⟨clock, options, request, hin⟩ := ih he
        exact ⟨clock, options, request, List.mem_append_left _ hin⟩
      · have hc := (hr.path hq).coherent
        rcases hm.advance hc.inOrder (fun a ha => (hc.abandoned a ha).2) with
          ha | ⟨clock, options, request, caller, deadline, -, rfl, -⟩
        · simp [ha.enrolled] at he
        · rw [enrolled_input, enrolled_enroll, List.mem_singleton] at he
          obtain ⟨-, rfl⟩ := Prod.mk.inj he
          exact ⟨clock, options, request, by simp⟩

end Traffic

namespace Session

open Traffic (Path Move Reached)

variable {s : Session} {c : Traffic} {inputs : List Input} {clock : Clock} {options : Options}
  {request : Request} {seq sink caller : Nat}

theorem IsNew.numbers (hs : s.IsNew) (inputs : List Input) :
    (enrolled (s.history inputs)).map Prod.fst
      = List.range' 1 (enrolled (s.history inputs)).length := by
  obtain ⟨before, rest, c, hall, hr, hquiet, -⟩ := hs.reached inputs
  have hnumbered := hr.coherent.numbered
  have hlength : (enrolled before).length = c.dispatched := by
    simpa using congrArg List.length hnumbered
  rw [hall, enrolled_append, hquiet.enrolled, List.append_nil, hlength, hnumbered]

theorem IsNew.callers (hs : s.IsNew) (inputs : List Input) :
    ((enrolled (s.history inputs)).map Prod.snd).Sublist (inputs.filterMap Input.caller?) := by
  obtain ⟨before, rest, c, hall, hr, hquiet, -⟩ := hs.reached inputs
  have howed : inputs.flatMap Input.debts = (inputs.filterMap Input.caller?).map .reply := by
    rw [List.filterMap_eq_flatMap_toList, List.map_flatMap]
    exact congrArg (inputs.flatMap ·) (funext Input.debts_eq_caller)
  have hsub := hr.callers.trans ((List.sublist_append_left (incurred before) (incurred rest)))
  rw [← incurred_append, ← hall, incurred_history, howed, List.sublist_map_iff] at hsub
  obtain ⟨taken, htaken, hsame⟩ := hsub
  have hinj : Function.Injective Debt.reply := fun _ _ => Debt.reply.inj
  have hcallers : (enrolled before).map Prod.snd = taken := by
    refine List.map_injective_iff.2 hinj ?_
    rw [← hsame, List.map_map]
    rfl
  rw [hall, enrolled_append, hquiet.enrolled, List.append_nil, hcallers]
  exact htaken

theorem IsNew.handed_of_enroll (hs : s.IsNew) {i : Input}
    (he : .enroll seq sink ∈ ((s.after inputs).respond i).actions) :
    ∃ clock options request, i = .dispatch clock options request sink := by
  have hquiet : ¬∀ a ∈ ((s.after inputs).respond i).actions, a.isQuiet = true := fun hq =>
    absurd (hq _ he) (by simp [Action.isQuiet, Action.isIdle])
  cases ht : (s.after inputs).traffic? with
  | none => exact absurd (respond_quiet ht i) hquiet
  | some c =>
      rcases respond_established ht i with ⟨d, -, hp⟩ | hends
      · obtain ⟨clock, options, request, hin⟩ :=
          (hs.established inputs ht).1.enrolled_handed hp (mem_enrolled_input.2 he)
        refine ⟨clock, options, request, Eq.symm ?_⟩
        simpa using hin
      · exact absurd hends.quiet hquiet

theorem dispatch_word (h : s.traffic? = some c) (room : c.hasRoom = true) (clock : Clock)
    (options : Options) (request : Request) (sink : Nat) :
    (s.dispatch clock options request sink).value.2 = decide (c.dispatched + 1 < c.ceiling) := by
  obtain ⟨hphase, hd, hc⟩ := traffic?_eq_some h
  have hfree : (decide (s.dispatched < s.ceiling) && !c.tracker.isClosing) = true := by
    rw [hd, hc]
    exact room
  have hsame := deadlineOf_snd s clock options
  unfold Session.dispatch
  rw [hphase]
  simp only [hfree, if_true]
  generalize s.deadlineOf clock options = due at hsame ⊢
  rw [hsame]
  by_cases hlast : c.ceiling ≤ c.dispatched + 1
  · simp [hd, hc, hlast, Nat.not_lt.2 hlast]
  · simp [hd, hc, hlast, Nat.lt_of_not_le hlast]

structure Registers (s : Session) (clock : Clock) (options : Options) (request : Request)
    (sink seq : Nat) : Prop where
  next : seq = s.dispatched + 1
  word : (s.dispatch clock options request sink).value.2 = decide (seq < s.ceiling)
  established : ∃ w t, (s.dispatch clock options request sink).value.1.phase = .established w t
    ∧ (seq, sink) ∈ t.awaited
    ∧ ⟨seq, request.head, request.body, options.writeTimeout⟩ ∈ w.queue

theorem IsNew.registers (hs : s.IsNew)
    (he : .enroll seq caller ∈ ((s.after inputs).dispatch clock options request sink).actions) :
    caller = sink ∧ (s.after inputs).Registers clock options request sink seq := by
  cases ht : (s.after inputs).traffic? with
  | none => simp [dispatch_of_none ht, refuse] at he
  | some c =>
      cases hroom : c.hasRoom with
      | false => simp [dispatch_of_full ht hroom, refuse] at he
      | true =>
          obtain ⟨hvalue, hactions⟩ := dispatch_of_room ht hroom clock options request sink
          obtain ⟨hphase, hd, hk⟩ := traffic?_eq_some ht
          have hnext := mem_enrolled.2 (Happening.action_mem_ofActions.2 (hactions ▸ he))
          rw [Traffic.enrolled_enroll, List.mem_singleton] at hnext
          obtain ⟨rfl, rfl⟩ := Prod.mk.inj hnext
          have hc := (hs.established inputs ht).1.coherent
          refine ⟨rfl, hd ▸ rfl, ?_, _, _, (traffic?_eq_some hvalue).1, ?_, ?_⟩
          · rw [hk]
            exact dispatch_word ht hroom clock options request caller
          · rw [Tracker.awaited, hc.enroll_pending, List.map_append]
            exact List.mem_append_right _ (List.mem_singleton_self _)
          · simp [Traffic.enroll, Writer.enqueue]

theorem takesNone_of_refusal (hn : (s.after inputs).phase ≠ .negotiating)
    (hno : ((s.after inputs).dispatch clock options request sink).value.2 = false) :
    (s.after (inputs ++ [.dispatch clock options request sink])).takesNone = true := by
  rw [after_concat]
  change ((s.after inputs).dispatch clock options request sink).value.1.takesNone = true
  cases ht : (s.after inputs).traffic? with
  | none =>
      rw [dispatch_of_none ht]
      exact takesNone_of_closed ((traffic?_eq_none.1 ht).resolve_left hn)
  | some c =>
      cases hroom : c.hasRoom with
      | false =>
          rw [dispatch_of_full ht hroom]
          exact (takesNone_of_traffic ht).trans (by rw [hroom]; rfl)
      | true =>
          rw [dispatch_word ht hroom, decide_eq_false_iff_not] at hno
          rw [takesNone_of_traffic (dispatch_of_room ht hroom clock options request sink).1]
          simp [Traffic.hasRoom, Traffic.enroll, hno]

def word (s : Session) : Input → List Action
  | .dispatch clock options request sink =>
      [.accept sink (s.dispatch clock options request sink).value.2]
  | _ => []

def words (s : Session) : List Input → List Action
  | [] => []
  | i :: rest => s.word i ++ (s.step i).value.words rest

theorem words_append (s : Session) (xs ys : List Input) :
    s.words (xs ++ ys) = s.words xs ++ (s.after xs).words ys := by
  induction xs generalizing s with
  | nil => rfl
  | cons i rest ih => simp [words, ih]

theorem words_of_silent (h : ∀ i ∈ inputs, i.caller? = none) : s.words inputs = [] := by
  induction inputs generalizing s with
  | nil => rfl
  | cons i rest ih =>
      have hi : s.word i = [] := by
        cases i with
        | dispatch => simp [Input.caller?] at h
        | _ => rfl
      rw [words, hi, List.nil_append]
      exact ih fun j hj => h j (List.mem_cons_of_mem i hj)

theorem word_mem_words (s : Session) (before : List Input) (i : Input) (behind : List Input) :
    (s.after before).word i ⊆ s.words (before ++ i :: behind) := by
  rw [words_append, words]
  intro a ha
  exact List.mem_append_right _ (List.mem_append_left _ ha)

end Session

/-- A number whose stream is odd, below `2 ^ 30` and found again, all in 32 bits. -/
structure IsStreamed (seq : Nat) : Prop where
  exact : (UInt32.ofNat seq).toNat = seq
  doubled : (UInt32.ofNat seq <<< 1).toNat = 2 * seq
  stream : (UInt32.ofNat seq <<< 1) - 1 = streamOf seq
  value : (streamOf seq).toNat = 2 * seq - 1
  odd : (streamOf seq).toNat % 2 = 1
  bounded : (streamOf seq).toNat < 1 <<< 30
  found : seqOf? (streamOf seq) = some seq

theorem isStreamed {seq : Nat} (hpos : 0 < seq) (hle : seq ≤ maxDispatches) : IsStreamed seq := by
  have hbound : seq ≤ 2 ^ 29 := hle
  have hstream : HasStream seq := ⟨hpos, by omega⟩
  have hexact : (UInt32.ofNat seq).toNat = seq := by
    rw [UInt32.toNat_ofNat']
    exact Nat.mod_eq_of_lt (by omega)
  have hdoubled : (UInt32.ofNat seq <<< 1).toNat = 2 * seq := by
    rw [UInt32.toNat_shiftLeft, hexact]
    simp only [Nat.shiftLeft_eq]
    exact (Nat.mod_eq_of_lt (by simp; omega)).trans (by simp; omega)
  have hvalue := streamOf_toNat hstream
  refine ⟨hexact, hdoubled, ?_, hvalue, by omega, by omega, seqOf?_streamOf hstream⟩
  rw [← UInt32.toNat_inj, hvalue, UInt32.toNat_sub_of_le]
  · rw [hdoubled]
    rfl
  · rw [UInt32.le_iff_toNat_le, hdoubled]
    simp
    omega

end HttpSession
