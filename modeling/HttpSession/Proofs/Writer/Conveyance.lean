import HttpSession.Proofs.Writer.Words

/-! What is written of one request, whatever else is written and whenever its body waits. -/

namespace HttpSession

open Writer (spoken)

theorem Body.feed_source (body : Body) (s : Nat) (frames : List Frame) (ended : Option Bool) :
    (body.feed s frames ended).source = body.source := by
  unfold feed
  split <;> rfl

theorem Body.feed_of_ne {body : Body} {s : Nat} (h : body.source ≠ s) (frames : List Frame)
    (ended : Option Bool) : body.feed s frames ended = body :=
  if_neg h

namespace Writer

variable {seq : Nat} {clock : Clock} {canceled : Nat → Bool} {w : Writer}

def flown (active : List InFlight) : List (Nat × Nat) := active.map fun f => (f.seq, f.body.source)

def awaited (queue : List Upload) : List (Nat × Nat) := queue.map fun u => (u.seq, u.body.source)

def held (w : Writer) : List (Nat × Nat) := flown w.active ++ awaited w.queue

theorem pass_flown (clock : Clock) (encoder : Encoder) (active : List InFlight) :
    (flown (pass clock encoder active).left).Sublist (flown active) := by
  induction active generalizing encoder with
  | nil => exact .refl _
  | cons f rest ih =>
      have hpoll := f.poll_left clock encoder
      cases hs : (f.poll clock encoder).stage with
      | waiting body =>
          rw [hs] at hpoll
          cases hpoll with
          | waiting same =>
              rw [pass_waiting rfl hs]
              simpa [Pass.after, Pass.keep, flown, same] using ih (f.poll clock encoder).encoder
      | done =>
          rw [pass_done rfl hs]
          exact (ih _).cons _
      | failed fault =>
          rw [pass_failed rfl hs]
          exact List.sublist_cons_self ..
      | crashed text body =>
          rw [hs] at hpoll
          cases hpoll with
          | crashed _ same =>
              rw [pass_crashed rfl hs]
              simp [flown, same]

theorem launchFrom_held (clock : Clock) (canceled : Nat → Bool) (w : Writer) (queue : List Upload) :
    (launchFrom clock canceled w queue).writer.held.Sublist (flown w.active ++ awaited queue) := by
  induction queue generalizing w with
  | nil => exact .refl _
  | cons u rest ih =>
      have hskip : (flown w.active ++ awaited rest).Sublist (flown w.active ++ awaited (u :: rest)) :=
        (List.sublist_cons_self _ _).append_left _
      cases hm : w.mayStart with
      | false =>
          rw [launchFrom_full hm]
          exact .refl _
      | true =>
          cases hc : canceled u.seq with
          | true =>
              rw [launchFrom_canceled hm hc]
              exact hskip
          | false =>
              cases hf : (w.encoder.put u.seq (.headers u.head u.body.isEnd)).fault with
              | some fault =>
                  rw [launchFrom_failed hm hc rfl hf]
                  exact hskip
              | none =>
                  rw [launchFrom_sent hm hc rfl hf]
                  refine (ih _).trans ?_
                  have hstarted : (flown (w.started clock u)).Sublist (awaited [u]) := by
                    unfold started
                    split
                    · exact List.nil_sublist _
                    · exact .refl _
                  simpa [flown, awaited] using (hstarted.append_left (flown w.active)).append_right (awaited rest)

theorem launch_held (clock : Clock) (canceled : Nat → Bool) (w : Writer) :
    (w.launch clock canceled).writer.held.Sublist w.held :=
  launchFrom_held clock canceled w w.queue

theorem passed_held (clock : Clock) (w : Writer) :
    (w.passed (pass clock w.encoder w.active)).held.Sublist w.held :=
  (pass_flown clock w.encoder w.active).append_right _

theorem advance_held (clock : Clock) (canceled : Nat → Bool) (w : Writer) :
    (advance clock canceled w).writer.held.Sublist w.held :=
  advance_along (R := fun v w => w.held.Sublist v.held) (fun hv hw => hw.trans hv)
    (launch_held clock canceled) (passed_held clock) w

structure Knows (seq source : Nat) (w : Writer) : Prop where
  alone : w.held.countP (·.1 == seq) ≤ 1
  source : ∀ p ∈ w.held, p.1 = seq → p.2 = source

theorem Knows.mono {source : Nat} {v : Writer} (h : w.Knows seq source) (hv : v.held.Sublist w.held) :
    v.Knows seq source :=
  ⟨Nat.le_trans hv.countP_le h.alone, fun p hp => h.source p (hv.subset hp)⟩

theorem countP_held (seq : Nat) (w : Writer) :
    w.held.countP (·.1 == seq) = w.active.countP (·.seq == seq) + w.queue.countP (·.seq == seq) := by
  simp [held, flown, awaited, List.countP_map, Function.comp_def]

theorem words_reports (seq : Nat) (r : Round) :
    words seq r.reports = spoken seq r.actions ++ words seq (reported (some r.standing)) :=
  words_append ..

def Conveys (seq : Nat) (w : Writer) (said : List Word) (v : Writer) : Prop :=
  (∀ word ∈ said, word.IsFair) → said ++ v.owes seq = w.owes seq

theorem Conveys.trans {v x : Writer} {said more : List Word} (h : Conveys seq w said v)
    (h' : Conveys seq v more x) : Conveys seq w (said ++ more) x := by
  intro fair
  have hfirst := h fun word hw => fair word (List.mem_append_left _ hw)
  have hrest := h' fun word hw => fair word (List.mem_append_right _ hw)
  rw [← hfirst, ← hrest, List.append_assoc]

variable {l : Launch} {p : Pass}

theorem launch_conveys (launch : w.launch clock canceled = l) (alone : w.held.countP (·.1 == seq) ≤ 1) :
    Conveys seq w (spoken seq l.actions ++ words seq (reported (l.unwritten.map .unwritten))) l.writer := by
  subst launch
  exact launchFrom_says (countP_held seq w ▸ alone)

theorem pass_conveys (pass : pass clock l.writer.encoder l.writer.active = p)
    (alone : l.writer.held.countP (·.1 == seq) ≤ 1) :
    Conveys seq l.writer (spoken seq p.actions ++ words seq (reported p.stop)) (l.writer.passed p) := by
  subst pass
  intro fair
  have hactive : l.writer.active.countP (·.seq == seq) ≤ 1 :=
    Nat.le_trans (Nat.le_add_right ..) (countP_held seq l.writer ▸ alone)
  rw [owes, owes, ← pass_says hactive _ fair, ← List.append_assoc]
  rfl

theorem turn_held (launch : w.launch clock canceled = l)
    (pass : pass clock l.writer.encoder l.writer.active = p) : (l.writer.passed p).held.Sublist w.held := by
  subst launch pass
  exact (passed_held clock _).trans (launch_held clock canceled w)

theorem turn_conveys (launch : w.launch clock canceled = l) (hu : l.unwritten = none)
    (pass : pass clock l.writer.encoder l.writer.active = p) (alone : w.held.countP (·.1 == seq) ≤ 1) :
    Conveys seq w (spoken seq (l.actions ++ p.actions) ++ words seq (reported p.stop)) (l.writer.passed p) := by
  have hheld : l.writer.held.countP (·.1 == seq) ≤ 1 := by
    subst launch
    exact Nat.le_trans (launch_held clock canceled w).countP_le alone
  have hboth := (launch_conveys launch alone).trans (pass_conveys pass hheld)
  simpa [hu, reported] using hboth

theorem advance_conveys (alone : w.held.countP (·.1 == seq) ≤ 1) :
    Conveys seq w (words seq (advance clock canceled w).reports) (advance clock canceled w).writer := by
  rw [words_reports]
  induction w using advance.induct clock canceled with
  | case1 w l u hu =>
      rw [advance_unwritten rfl hu]
      have hlaunch := launch_conveys (l := l) rfl alone
      rw [hu] at hlaunch
      exact hlaunch
  | case2 w l hu hn =>
      rw [advance_empty rfl hu hn]
      have hlaunch := launch_conveys (l := l) rfl alone
      rw [hu] at hlaunch
      exact hlaunch
  | case3 w l hu hn p standing hs =>
      rw [advance_stopped rfl hu hn rfl hs]
      have hturn := turn_conveys (l := l) (p := p) rfl hu rfl alone
      rw [hs] at hturn
      exact hturn
  | case4 w l hu hn p rest hs hf ih =>
      rw [advance_again rfl hu hn rfl hs hf]
      have hturn := turn_conveys (l := l) (p := p) rfl hu rfl alone
      have hheld := Nat.le_trans (turn_held (l := l) (p := p) rfl rfl).countP_le alone
      have hboth := hturn.trans (ih hheld)
      rw [hs] at hboth
      simpa [reported, Round.after] using hboth
  | case5 w l hu hn p hs hf =>
      rw [advance_pending rfl hu hn rfl hs hf]
      have hturn := turn_conveys (l := l) (p := p) rfl hu rfl alone
      rw [hs] at hturn
      exact hturn

def Operation.Spares (seq source : Nat) : Operation → Prop
  | .enqueue u => u.seq ≠ seq
  | .abandon s _ => s ≠ seq
  | .feed s _ _ => s ≠ source
  | _ => True

theorem filter_eraseP {α : Type} {p q : α → Bool} (h : ∀ a, q a = true → p a = false) (l : List α) :
    (l.eraseP q).filter p = l.filter p := by
  induction l with
  | nil => rfl
  | cons a rest ih =>
      cases hq : q a with
      | true => simp [hq, h a hq]
      | false => simp [hq, List.filter_cons, ih]

theorem abandon_conveys {s : Nat} (hs : s ≠ seq) (reset : Bool) :
    Conveys seq w (spoken seq (w.abandon s reset).2) (w.abandon s reset).1 := by
  have hother {a : Nat} (ha : (a == s) = true) : (a == seq) = false := by
    simp_all
  have hqueue : lined seq (w.queue.eraseP (·.seq == s)) = lined seq w.queue := by
    rw [lined, filter_eraseP fun u => hother, lined]
  have hactive : aloft seq (w.active.eraseP (·.seq == s)) = aloft seq w.active := by
    rw [aloft, filter_eraseP fun f => hother, aloft]
  intro _
  unfold abandon
  split
  · simp [owes, hqueue]
  · dsimp only
    split
    · simp [owes, hactive, spoken_emission, hs]
    · simp [owes, hactive]

theorem abandon_held (w : Writer) (s : Nat) (reset : Bool) : (w.abandon s reset).1.held.Sublist w.held := by
  unfold abandon
  split
  · exact (List.eraseP_sublist.map _).append_left _
  · dsimp only
    split <;> exact (List.eraseP_sublist.map _).append_right _

theorem aloft_map {active : List InFlight} {g : InFlight → InFlight} (hseq : ∀ f, (g f).seq = f.seq)
    (htale : ∀ f ∈ active, f.seq = seq → (g f).tale = f.tale) : aloft seq (active.map g) = aloft seq active := by
  induction active with
  | nil => rfl
  | cons f rest ih =>
      rw [List.map_cons, aloft_cons, aloft_cons, hseq, ih fun f hf => htale f (List.mem_cons_of_mem _ hf)]
      split
      · rw [htale f List.mem_cons_self ‹_›]
      · rfl

theorem lined_map {queue : List Upload} {g : Upload → Upload} (hseq : ∀ u, (g u).seq = u.seq)
    (htale : ∀ u ∈ queue, u.seq = seq → (g u).tale = u.tale) : lined seq (queue.map g) = lined seq queue := by
  induction queue with
  | nil => rfl
  | cons u rest ih =>
      rw [List.map_cons, lined_cons, lined_cons, hseq, ih fun u hu => htale u (List.mem_cons_of_mem _ hu)]
      split
      · rw [htale u List.mem_cons_self ‹_›]
      · rfl

theorem feed_owes {source s : Nat} (h : w.Knows seq source) (hs : s ≠ source) (frames : List Frame)
    (ended : Option Bool) : (w.feed s frames ended).owes seq = w.owes seq := by
  have hactive : ∀ f ∈ w.active, f.seq = seq → f.body.feed s frames ended = f.body := by
    intro f hf hseq
    have hmem : (f.seq, f.body.source) ∈ w.held := List.mem_append_left _ (List.mem_map_of_mem hf)
    exact Body.feed_of_ne (fun heq => hs (heq.symm.trans (h.source _ hmem hseq))) frames ended
  have hqueue : ∀ u ∈ w.queue, u.seq = seq → u.body.feed s frames ended = u.body := by
    intro u hu hseq
    have hmem : (u.seq, u.body.source) ∈ w.held := List.mem_append_right _ (List.mem_map_of_mem hu)
    exact Body.feed_of_ne (fun heq => hs (heq.symm.trans (h.source _ hmem hseq))) frames ended
  rw [owes, owes]
  refine congrArg₂ (· ++ ·) (aloft_map (fun _ => rfl) fun f hf hseq => ?_)
    (lined_map (fun _ => rfl) fun u hu hseq => ?_)
  · rw [hactive f hf hseq]
  · rw [hqueue u hu hseq]

theorem fire_owes (w : Writer) : w.fire.owes seq = w.owes seq :=
  congrArg (· ++ lined seq w.queue) (aloft_map (fun _ => rfl) fun _ _ _ => rfl)

theorem enqueue_held (w : Writer) (u : Upload) :
    (w.enqueue u).held = w.held ++ [(u.seq, u.body.source)] := by
  simp [held, enqueue, awaited]

theorem enqueue_owes (w : Writer) (u : Upload) :
    (w.enqueue u).owes seq = w.owes seq ++ if u.seq = seq then u.tale else [] := by
  by_cases hu : u.seq = seq <;> simp [owes, enqueue, lined, hu]

theorem operate_knows {source : Nat} (h : w.Knows seq source) {o : Operation} (hs : o.Spares seq source) :
    (w.operate o).1.Knows seq source := by
  cases o with
  | enqueue u =>
      have hother : ¬u.seq = seq := hs
      refine ⟨?_, fun p hp hseq => ?_⟩
      · simpa [operate, enqueue_held, hother] using h.alone
      · rw [operate, enqueue_held, List.mem_append, List.mem_singleton] at hp
        rcases hp with hp | rfl
        · exact h.source p hp hseq
        · exact absurd hseq hother
  | abandon s reset => exact h.mono (abandon_held w s reset)
  | advance clock canceled => exact h.mono (advance_held clock canceled w)
  | feed s frames ended =>
      have hheld : (w.feed s frames ended).held = w.held := by
        simp [held, flown, awaited, Writer.feed, Function.comp_def, Body.feed_source]
      exact h.mono (hheld ▸ .refl _)
  | fire =>
      have hheld : w.fire.held = w.held := by
        simp [held, flown, Writer.fire]
      exact h.mono (hheld ▸ .refl _)
  | tune encoder => exact ⟨h.alone, h.source⟩

theorem operate_conveys {source : Nat} (h : w.Knows seq source) {o : Operation} (hs : o.Spares seq source) :
    Conveys seq w (words seq (w.operate o).2) (w.operate o).1 := by
  cases o with
  | enqueue u =>
      have hother : ¬u.seq = seq := hs
      exact fun _ => by simp [operate, enqueue_owes, hother]
  | abandon s reset => exact abandon_conveys hs reset
  | advance clock canceled => exact advance_conveys h.alone
  | feed s frames ended => exact fun _ => feed_owes h hs frames ended
  | fire => exact fun _ => fire_owes w
  | tune encoder => exact fun _ => rfl

theorem run_conveys {source : Nat} (h : w.Knows seq source) {operations : List Operation}
    (spares : ∀ o ∈ operations, o.Spares seq source) :
    Conveys seq w (words seq (w.run operations).2) (w.run operations).1 := by
  induction operations generalizing w with
  | nil => exact fun _ => rfl
  | cons o rest ih =>
      have hfirst := operate_conveys h (spares o List.mem_cons_self)
      have hrest := ih (operate_knows h (spares o List.mem_cons_self)) fun o ho => spares o (List.mem_cons_of_mem _ ho)
      simpa [run] using hfirst.trans hrest

end Writer

inductive Ending where
  | plain
  | trailers (fields : Fields)
  | failure (cause : Fault.Cause)

namespace Ending

def frames : Ending → List Frame
  | .plain => []
  | .trailers fields => [.trailers fields]
  | .failure cause => [.failure cause]

def pieces (reported : Bool) (octets : List Octets) : Ending → List Piece
  | .plain =>
      if reported then octets.dropLast.map (.data · false) ++ octets.getLast?.toList.map (.data · true)
      else octets.map (.data · false) ++ [.data [] true]
  | .trailers fields => octets.map (.data · false) ++ [.trailers fields]
  | .failure _ => octets.map (.data · false) ++ [.reset]

def unwritten (seq : Nat) : Ending → List Word
  | .failure cause => [.unwritten (.failed seq (Fault.userBody cause))]
  | _ => []

def words (seq : Nat) (reported : Bool) (octets : List Octets) (ending : Ending) : List Word :=
  (ending.pieces reported octets).map (.piece · true) ++ ending.unwritten seq

theorem frames_of_cons {frame : Frame} {rest : List Frame} {octets : List Octets} {ending : Ending}
    (h : frame :: rest = octets.map .data ++ ending.frames) (hframe : ∀ o, frame ≠ .data o) :
    octets = [] ∧ ending.frames = [frame] := by
  cases octets with
  | nil => cases ending <;> simp_all [frames]
  | cons first others => exact absurd (List.cons.inj h).1 (hframe first)

theorem words_cons {seq : Nat} {reported : Bool} {octets : List Octets} {ending : Ending}
    (h : reported = true → octets ≠ []) (first : Octets) :
    ending.words seq reported (first :: octets)
      = .piece (.data first false) true :: ending.words seq reported octets := by
  cases ending with
  | plain =>
      cases reported with
      | false => rfl
      | true =>
          obtain ⟨second, rest, rfl⟩ := List.exists_cons_of_ne_nil (h rfl)
          rfl
  | trailers | failure => rfl

end Ending

namespace Body

def endsOnData (frames : List Frame) : Bool :=
  match frames.getLast? with
  | some (.data _) => true
  | _ => false

def reports (body : Body) : Bool := body.announced && endsOnData body.frames

structure Yields (body : Body) (octets : List Octets) (ending : Ending) : Prop where
  ended : body.ended = true
  frames : body.frames.filter (· ≠ .pending) = octets.map .data ++ ending.frames

theorem ne_nil_of_endsOnData {frames : List Frame} {octets : List Octets} {ending : Ending}
    (h : frames.filter (· ≠ .pending) = octets.map .data ++ ending.frames) (hd : endsOnData frames = true) :
    octets ≠ [] := by
  rintro rfl
  unfold endsOnData at hd
  split at hd
  · next last hlast =>
      have hmem : Frame.data last ∈ frames.filter (· ≠ .pending) :=
        List.mem_filter.2 ⟨List.mem_of_getLast? hlast, by simp⟩
      rw [h] at hmem
      cases ending <;> simp [Ending.frames] at hmem
  · exact absurd hd Bool.false_ne_true

theorem tale_eq {body : Body} (seq : Nat) (ended : body.ended = true) {frames : List Frame}
    {octets : List Octets} {ending : Ending}
    (h : frames.filter (· ≠ .pending) = octets.map .data ++ ending.frames) :
    body.tale seq frames = ending.words seq (body.announced && endsOnData frames) octets := by
  induction frames generalizing octets with
  | nil =>
      obtain ⟨hoctets, hending⟩ := List.append_eq_nil_iff.1 h.symm
      obtain rfl := List.map_eq_nil_iff.1 hoctets
      cases ending with
      | plain => simp [tale, ended, Ending.words, Ending.pieces, Ending.unwritten, endsOnData]
      | trailers | failure => simp [Ending.frames] at hending
  | cons frame rest ih =>
      cases frame with
      | pending =>
          have hsame : endsOnData (.pending :: rest) = endsOnData rest := by
            cases rest <;> rfl
          rw [hsame]
          exact ih (by simpa using h)
      | crash text =>
          obtain ⟨-, hending⟩ := Ending.frames_of_cons (by simpa using h) (by simp)
          cases ending <;> simp [Ending.frames] at hending
      | failure cause =>
          obtain ⟨rfl, hending⟩ := Ending.frames_of_cons (by simpa using h) (by simp)
          cases ending with
          | failure other =>
              obtain rfl : other = cause := by simpa [Ending.frames] using hending
              rfl
          | plain | trailers => simp [Ending.frames] at hending
      | trailers fields =>
          obtain ⟨rfl, hending⟩ := Ending.frames_of_cons (by simpa using h) (by simp)
          cases ending with
          | trailers other =>
              obtain rfl : other = fields := by simpa [Ending.frames] using hending
              rfl
          | plain | failure => simp [Ending.frames] at hending
      | data first =>
          rw [List.filter_cons_of_pos (by simp)] at h
          cases octets with
          | nil => cases ending <;> simp [Ending.frames] at h
          | cons other others =>
              obtain ⟨rfl, hrest⟩ : first = other ∧ _ := by simpa using h
              have hyields : rest.filter (· ≠ .pending) = others.map .data ++ ending.frames := by simpa using hrest
              have hothers := ih hyields
              cases rest with
              | nil =>
                  obtain ⟨hoctets, hending⟩ := List.append_eq_nil_iff.1 hrest.symm
                  obtain rfl := List.map_eq_nil_iff.1 hoctets
                  cases ending with
                  | plain =>
                      cases ha : body.announced <;>
                        simp [tale, isEnd, ha, ended, Ending.words, Ending.pieces, Ending.unwritten, endsOnData]
                  | trailers | failure => simp [Ending.frames] at hending
              | cons next behind =>
                  have hsame : endsOnData (.data first :: next :: behind) = endsOnData (next :: behind) := rfl
                  have hopen : ({ body with frames := next :: behind } : Body).isEnd = false := by simp [isEnd]
                  rw [tale, hopen, hothers, hsame, Ending.words_cons]
                  · rfl
                  · intro hreported
                    rw [Bool.and_eq_true] at hreported
                    exact ne_nil_of_endsOnData hyields hreported.2

end Body

namespace Writer

variable {w : Writer} {u : Upload} {octets : List Octets} {ending : Ending} {operations : List Operation}

theorem knows_enqueue (fresh : u.seq ∉ w.seqs) : (w.enqueue u).Knows u.seq u.body.source := by
  have hother : ∀ p ∈ w.held, p.1 ≠ u.seq := by
    intro p hp hseq
    refine fresh (hseq ▸ ?_)
    have hmap : w.held.map Prod.fst = w.seqs := by simp [held, flown, awaited, seqs, Function.comp_def]
    exact hmap ▸ List.mem_map_of_mem hp
  have hnone : w.held.countP (·.1 == u.seq) = 0 :=
    List.countP_eq_zero.2 fun p hp => by simpa using hother p hp
  refine ⟨by simp [enqueue_held, hnone], fun p hp hseq => ?_⟩
  rw [enqueue_held, List.mem_append, List.mem_singleton] at hp
  rcases hp with hp | rfl
  · exact absurd hseq (hother p hp)
  · rfl

theorem owes_eq_nil {seq : Nat} (h : seq ∉ w.seqs) : w.owes seq = [] := by
  rw [seqs, List.mem_append, not_or] at h
  rw [owes, aloft_eq_nil, lined_eq_nil]
  · rfl
  · exact List.countP_eq_zero.2 fun u hu hseq => h.2 (beq_iff_eq.1 hseq ▸ List.mem_map_of_mem hu)
  · exact List.countP_eq_zero.2 fun f hf hseq => h.1 (beq_iff_eq.1 hseq ▸ List.mem_map_of_mem hf)

def halting : Upload :=
  ⟨2, ⟨ascii "PUT", ⟨none, none, some Target.slash⟩, .http2, .empty⟩,
    ⟨2, [.data (ascii "one"), .pending, .data (ascii "two")], true, true⟩, none⟩

end Writer

end HttpSession
