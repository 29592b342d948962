import HttpSession.Proofs.Writer.Progress

/-! What there is to say of a request, and how a pass and a launch say the beginning of it. -/

namespace HttpSession

open Happening (ofActions)

inductive Word where
  | piece (piece : Piece) (taken : Bool)
  | unwritten (u : Unwritten)
  deriving DecidableEq, Repr

def Word.IsFair : Word → Prop
  | .piece _ taken => taken = true
  | .unwritten (.canceled _) => False
  | .unwritten (.failed _ fault) => fault ≠ Fault.writeTimeout

namespace Writer

def Report.word? (seq : Nat) : Report → Option Word
  | .action (.encode s piece ok) => if s = seq then some (.piece piece ok) else none
  | .returned (.unwritten u) => if u.seq = seq then some (.unwritten u) else none
  | _ => none

def words (seq : Nat) (reports : List Report) : List Word := reports.filterMap (Report.word? seq)

def spoken (seq : Nat) (actions : List Action) : List Word := words seq (actions.map .action)

section

variable {seq : Nat}

@[simp] theorem words_nil : words seq [] = [] := rfl

@[simp] theorem words_append (xs ys : List Report) : words seq (xs ++ ys) = words seq xs ++ words seq ys :=
  List.filterMap_append

@[simp] theorem spoken_nil : spoken seq [] = [] := rfl

@[simp] theorem spoken_append (xs ys : List Action) : spoken seq (xs ++ ys) = spoken seq xs ++ spoken seq ys := by
  simp [spoken]

theorem spoken_eq (actions : List Action) :
    spoken seq actions
      = ((handed (ofActions actions)).filter (·.seq == seq)).map fun x => .piece x.piece x.ok := by
  induction actions with
  | nil => rfl
  | cons a rest ih =>
      cases a with
      | encode s piece ok =>
          have hsplit : spoken seq (.encode s piece ok :: rest)
              = (if s = seq then [.piece piece ok] else []) ++ spoken seq rest := by
            by_cases hs : s = seq <;> simp [spoken, words, Report.word?, hs]
          have hhanded : handed (ofActions (.encode s piece ok :: rest))
              = ⟨s, piece, ok⟩ :: handed (ofActions rest) := rfl
          rw [hsplit, hhanded, ih]
          by_cases hs : s = seq <;> simp [hs]
      | _ => exact ih

theorem spoken_emission (sent : Emission) (s : Nat) (piece : Piece) :
    spoken seq (sent.actions s piece) = if s = seq then [.piece piece sent.fault.isNone] else [] := by
  rw [spoken_eq, Emission.handed_actions]
  by_cases hs : s = seq <;> simp [hs]

theorem spoken_eq_nil {actions : List Action} (h : ∀ x ∈ handed (ofActions actions), x.seq ≠ seq) :
    spoken seq actions = [] := by
  rw [spoken_eq, List.filter_eq_nil_iff.2 fun x hx => by simpa using h x hx]
  rfl

end

end Writer

theorem Encoder.put_reset_fault (encoder : Encoder) (seq : Nat) : (encoder.put seq .reset).fault = none := by
  cases encoder <;> rfl

open Writer (spoken)

/-- What there is to say of a request with this body behind its headers: every frame, in order, and an end. -/
def Body.tale (seq : Nat) (body : Body) : List Frame → List Word
  | [] => if body.ended then [.piece (.data [] true) true] else []
  | .pending :: rest | .crash _ :: rest => body.tale seq rest
  | .failure cause :: _ => [.piece .reset true, .unwritten (.failed seq (Fault.userBody cause))]
  | .trailers fields :: _ => [.piece (.trailers fields) true]
  | .data octets :: rest =>
      if { body with frames := rest }.isEnd then [.piece (.data octets true) true]
      else .piece (.data octets false) true :: body.tale seq rest

theorem Body.tale_frames (seq : Nat) (body : Body) (stale frames : List Frame) :
    ({ body with frames := stale } : Body).tale seq frames = body.tale seq frames := by
  induction frames with
  | nil => rfl
  | cons frame rest ih =>
      cases frame with
      | data octets => simp only [tale, ih]
      | pending | crash => exact ih
      | _ => rfl

def InFlight.tale (f : InFlight) : List Word := f.body.tale f.seq f.body.frames

def Upload.tale (u : Upload) : List Word :=
  .piece (.headers u.head u.body.isEnd) true :: if u.body.isEnd then [] else u.body.tale u.seq u.body.frames

def Stage.tale (seq : Nat) : Stage → List Word
  | .waiting body | .crashed _ body => body.tale seq body.frames
  | .done => []
  | .failed fault => [.unwritten (.failed seq fault)]

namespace Transfer

variable {seq : Nat} {encoder : Encoder} {piece : Piece} {next : Encoder → Transfer}

def Says (seq : Nat) (tale : List Word) (t : Transfer) : Prop :=
  (∀ word ∈ spoken seq t.actions, word.IsFair) → spoken seq t.actions ++ t.stage.tale seq = tale

theorem send_says {tale : List Word} (hnext : ∀ sent, (next sent).Says seq tale) :
    (send encoder seq piece next).Says seq (.piece piece true :: tale) := by
  unfold send
  dsimp only
  intro fair
  cases hf : (encoder.put seq piece).fault with
  | none =>
      simp only [hf, after, Writer.spoken_append, Writer.spoken_emission, if_true] at fair ⊢
      have hrest := hnext _ fun word hw => fair word (List.mem_append_right _ hw)
      exact congrArg (_ :: ·) hrest
  | some fault =>
      have hrefused : Word.IsFair (.piece piece false) := by
        refine fair _ ?_
        simp [hf, after, Writer.spoken_emission]
      exact absurd hrefused Bool.false_ne_true

theorem run_says (seq : Nat) (body : Body) (encoder : Encoder) (frames : List Frame) :
    (run seq body encoder frames).Says seq (body.tale seq frames) := by
  induction frames generalizing encoder with
  | nil =>
      unfold run Body.tale
      split
      · exact send_says fun _ _ => rfl
      · exact fun _ => if_neg ‹_›
  | cons frame rest ih =>
      cases frame with
      | pending | crash => exact fun _ => Body.tale_frames seq body rest rest
      | failure cause =>
          intro _
          simp [run, giveUp, Writer.spoken_emission, Stage.tale, Body.tale, Encoder.put_reset_fault]
      | trailers fields => exact send_says fun _ _ => rfl
      | data octets =>
          unfold run Body.tale
          split
          · exact send_says fun _ _ => rfl
          · exact send_says ih

end Transfer

theorem InFlight.poll_says {f : InFlight} {clock : Clock} {encoder : Encoder}
    (punctual : (f.poll clock encoder).stage ≠ .failed Fault.writeTimeout) :
    (f.poll clock encoder).Says f.seq f.tale := by
  unfold poll at punctual ⊢
  split
  · simp_all [Transfer.giveUp]
  · exact Transfer.run_says f.seq f.body encoder f.body.frames

namespace Writer

variable {seq : Nat} {clock : Clock} {canceled : Nat → Bool} {w : Writer}

def aloft (seq : Nat) (active : List InFlight) : List Word :=
  (active.filter (·.seq == seq)).flatMap InFlight.tale

def lined (seq : Nat) (queue : List Upload) : List Word :=
  (queue.filter (·.seq == seq)).flatMap Upload.tale

def owes (seq : Nat) (w : Writer) : List Word := aloft seq w.active ++ lined seq w.queue

theorem aloft_cons (f : InFlight) (rest : List InFlight) :
    aloft seq (f :: rest) = (if f.seq = seq then f.tale else []) ++ aloft seq rest := by
  by_cases hf : f.seq = seq <;> simp [aloft, hf]

theorem lined_cons (u : Upload) (rest : List Upload) :
    lined seq (u :: rest) = (if u.seq = seq then u.tale else []) ++ lined seq rest := by
  by_cases hu : u.seq = seq <;> simp [lined, hu]

theorem aloft_append (xs ys : List InFlight) : aloft seq (xs ++ ys) = aloft seq xs ++ aloft seq ys := by
  simp [aloft]

theorem aloft_eq_nil {active : List InFlight} (h : active.countP (·.seq == seq) = 0) : aloft seq active = [] := by
  have hnone : active.filter (·.seq == seq) = [] :=
    List.filter_eq_nil_iff.2 fun f hf => List.countP_eq_zero.1 h f hf
  rw [aloft, hnone]
  rfl

theorem lined_eq_nil {queue : List Upload} (h : queue.countP (·.seq == seq) = 0) : lined seq queue = [] := by
  have hnone : queue.filter (·.seq == seq) = [] :=
    List.filter_eq_nil_iff.2 fun u hu => List.countP_eq_zero.1 h u hu
  rw [lined, hnone]
  rfl

def reported (stop : Option Standing) : List Report := stop.toList.map .returned

theorem spoken_poll_of_ne {f : InFlight} (h : f.seq ≠ seq) (clock : Clock) (encoder : Encoder) :
    spoken seq (f.poll clock encoder).actions = [] :=
  spoken_eq_nil fun x hx => by rw [((f.poll_tells clock encoder).own x hx).1]; exact h

def Pass.Says (seq : Nat) (active : List InFlight) (p : Pass) : Prop :=
  (∀ word ∈ spoken seq p.actions ++ words seq (reported p.stop), word.IsFair) →
    spoken seq p.actions ++ words seq (reported p.stop) ++ aloft seq p.left = aloft seq active

section

variable {encoder : Encoder} {f : InFlight} {rest : List InFlight}

theorem pass_says_own (hnone : aloft f.seq rest = [])
    (hrest : ∀ encoder, (pass clock encoder rest).Says f.seq rest) :
    (pass clock encoder (f :: rest)).Says f.seq (f :: rest) := by
  have hpoll : (f.poll clock encoder).stage ≠ .failed Fault.writeTimeout →
      (f.poll clock encoder).Says f.seq f.tale := InFlight.poll_says
  intro fair
  rw [aloft_cons, if_pos rfl, hnone, List.append_nil]
  cases hs : (f.poll clock encoder).stage with
  | waiting body =>
      rw [pass_waiting rfl hs] at fair ⊢
      simp only [Pass.after, Pass.keep, spoken_append, List.append_assoc] at fair ⊢
      have hothers := hrest _ fun word hw => fair word (List.mem_append_right _ hw)
      have htale := hpoll (by simp [hs]) fun word hw => fair word (List.mem_append_left _ hw)
      rw [hnone, List.append_eq_nil_iff, List.append_eq_nil_iff] at hothers
      simpa [aloft_cons, hothers.1.1, hothers.1.2, hothers.2, hs, Stage.tale, InFlight.tale] using htale
  | done =>
      rw [pass_done rfl hs] at fair ⊢
      simp only [Pass.after, Pass.drop, spoken_append, List.append_assoc] at fair ⊢
      have hothers := hrest _ fun word hw => fair word (List.mem_append_right _ hw)
      have htale := hpoll (by simp [hs]) fun word hw => fair word (List.mem_append_left _ hw)
      rw [hnone, List.append_eq_nil_iff, List.append_eq_nil_iff] at hothers
      simpa [hothers.1.1, hothers.1.2, hothers.2, hs, Stage.tale] using htale
  | failed fault =>
      rw [pass_failed rfl hs] at fair ⊢
      have hgone : words f.seq (reported (some (.unwritten (.failed f.seq fault))))
          = [.unwritten (.failed f.seq fault)] := by
        simp [words, reported, Report.word?, Unwritten.seq]
      simp only [hgone] at fair ⊢
      have hpunctual : fault ≠ Fault.writeTimeout := fair (.unwritten (.failed f.seq fault)) (by simp)
      have htale := hpoll (by simpa [hs] using hpunctual) fun word hw => fair word (List.mem_append_left _ hw)
      simpa [hnone, hs, Stage.tale] using htale
  | crashed text body =>
      rw [pass_crashed rfl hs] at fair ⊢
      have hnothing : words f.seq (reported (some (.crashed text))) = [] := rfl
      have htale := hpoll (by simp [hs]) fun word hw => fair word (List.mem_append_left _ hw)
      simpa [hnothing, aloft_cons, hnone, hs, Stage.tale, InFlight.tale] using htale

theorem pass_says_other (hf : f.seq ≠ seq) (hrest : ∀ encoder, (pass clock encoder rest).Says seq rest) :
    (pass clock encoder (f :: rest)).Says seq (f :: rest) := by
  have hpoll := spoken_poll_of_ne hf clock encoder
  intro fair
  rw [aloft_cons, if_neg hf, List.nil_append]
  cases hs : (f.poll clock encoder).stage with
  | waiting body =>
      rw [pass_waiting rfl hs] at fair ⊢
      simp only [Pass.after, Pass.keep, spoken_append, hpoll, aloft_cons, if_neg hf, List.nil_append] at fair ⊢
      exact hrest _ fair
  | done =>
      rw [pass_done rfl hs] at fair ⊢
      simp only [Pass.after, Pass.drop, spoken_append, hpoll, List.nil_append] at fair ⊢
      exact hrest _ fair
  | failed fault =>
      rw [pass_failed rfl hs]
      simp [hpoll, reported, words, Report.word?, Unwritten.seq, hf]
  | crashed text body =>
      rw [pass_crashed rfl hs]
      simp [hpoll, reported, words, Report.word?, aloft_cons, hf]

end

theorem pass_says {active : List InFlight} (alone : active.countP (·.seq == seq) ≤ 1) (encoder : Encoder) :
    (pass clock encoder active).Says seq active := by
  induction active generalizing encoder with
  | nil => exact fun _ => rfl
  | cons f rest ih =>
      have hrest := ih (Nat.le_trans (List.sublist_cons_self ..).countP_le alone)
      by_cases hf : f.seq = seq
      · subst hf
        refine pass_says_own (aloft_eq_nil ?_) hrest
        rw [List.countP_cons_of_pos (by simp)] at alone
        omega
      · exact pass_says_other hf hrest

theorem aloft_started (w : Writer) (clock : Clock) (u : Upload) :
    aloft u.seq (w.started clock u) = if u.body.isEnd then [] else u.body.tale u.seq u.body.frames := by
  unfold started
  split
  · rfl
  · simp [aloft, InFlight.tale]

theorem aloft_started_of_ne {u : Upload} (h : u.seq ≠ seq) (w : Writer) (clock : Clock) :
    aloft seq (w.started clock u) = [] := by
  unfold started
  split
  · rfl
  · simp [aloft, h]

theorem countP_started_le (w : Writer) (clock : Clock) (u : Upload) (rest : List Upload) :
    (w.active ++ w.started clock u).countP (·.seq == seq) + rest.countP (·.seq == seq)
      ≤ w.active.countP (·.seq == seq) + (u :: rest).countP (·.seq == seq) := by
  have hstarted : (w.started clock u).countP (·.seq == seq) ≤ [u].countP (·.seq == seq) := by
    unfold started
    split
    · exact Nat.zero_le _
    · exact Nat.le_refl _
  rw [← List.singleton_append, List.countP_append, List.countP_append]
  omega

theorem launchFrom_says {queue : List Upload}
    (alone : w.active.countP (·.seq == seq) + queue.countP (·.seq == seq) ≤ 1)
    (fair : ∀ word ∈ spoken seq (launchFrom clock canceled w queue).actions
      ++ words seq (reported ((launchFrom clock canceled w queue).unwritten.map .unwritten)), word.IsFair) :
    spoken seq (launchFrom clock canceled w queue).actions
        ++ words seq (reported ((launchFrom clock canceled w queue).unwritten.map .unwritten))
        ++ (launchFrom clock canceled w queue).writer.owes seq
      = aloft seq w.active ++ lined seq queue := by
  induction queue generalizing w with
  | nil => rfl
  | cons u rest ih =>
      cases hm : w.mayStart with
      | false =>
          rw [launchFrom_full hm]
          rfl
      | true =>
          cases hc : canceled u.seq with
          | true =>
              rw [launchFrom_canceled hm hc] at fair ⊢
              have hu : u.seq ≠ seq := by
                intro hu
                refine fair (.unwritten (.canceled u.seq)) ?_
                simp [words, reported, Report.word?, Unwritten.seq, hu]
              simp [words, reported, Report.word?, Unwritten.seq, hu, owes, lined_cons]
          | false =>
              cases hf : (w.encoder.put u.seq (.headers u.head u.body.isEnd)).fault with
              | some fault =>
                  rw [launchFrom_failed hm hc rfl hf] at fair ⊢
                  have hu : u.seq ≠ seq := by
                    rintro rfl
                    refine Bool.false_ne_true (fair (.piece (.headers u.head u.body.isEnd) false) ?_)
                    simp [spoken_emission, hf]
                  simp [words, reported, Report.word?, Unwritten.seq, hu, owes, lined_cons, spoken_emission]
              | none =>
                  rw [launchFrom_sent hm hc rfl hf] at fair ⊢
                  simp only [Launch.after, spoken_append, spoken_emission, hf, List.append_assoc] at fair ⊢
                  have hothers := ih (w := { w with
                      encoder := (w.encoder.put u.seq (.headers u.head u.body.isEnd)).encoder
                      active := w.active ++ w.started clock u })
                    (Nat.le_trans (w.countP_started_le clock u rest) alone)
                    fun word hw => fair word (List.mem_append_right _ hw)
                  rw [← List.append_assoc (spoken _ _), hothers, lined_cons, aloft_append]
                  by_cases hu : u.seq = seq
                  · subst hu
                    -- There is nothing to say of the others.
                    rw [List.countP_cons_of_pos (by simp)] at alone
                    have hactive : aloft u.seq w.active = [] := aloft_eq_nil (by omega)
                    have hrest : lined u.seq rest = [] := lined_eq_nil (by omega)
                    simp [hactive, hrest, aloft_started, Upload.tale]
                  · simp [hu, aloft_started_of_ne]

end Writer

end HttpSession
