import HttpSession.Proofs.Session.Coherence

namespace HttpSession

open Happening (ofActions)
open Traffic (Coherent Reached Path Move)

namespace Traffic

variable {c d : Traffic} {h x : List Happening} {seq : Nat}

def HasLost (c : Traffic) (seq : Nat) : Prop := seq ≤ c.dispatched ∧ seq ∉ c.tracker.seqs

theorem Coherent.move_hasLost (hc : Coherent h c) (hl : c.HasLost seq) (hm : Move c x d) :
    d.HasLost seq ∧ seq ∉ launched x := by
  rcases hm.advance hc.inOrder (fun a ha => (hc.abandoned a ha).2) with
    ha | ⟨clock, options, request, sink, deadline, room, rfl, rfl⟩
  · exact ⟨⟨ha.dispatched ▸ hl.1, fun hs => hl.2 (ha.tracker.seqs.subset hs)⟩,
      fun hs => hl.2 (ha.wanted seq hs)⟩
  · refine ⟨⟨Nat.le_succ_of_le hl.1, fun hs => ?_⟩, by simp [launched_enroll]⟩
    rw [hc.enroll_seqs, List.mem_append] at hs
    rcases hs with hs | hs
    · exact hl.2 hs
    · exact absurd (List.mem_singleton.1 hs) (Nat.ne_of_lt (Nat.lt_succ_of_le hl.1))

theorem Reached.path_hasLost (hr : Reached h c) (hl : c.HasLost seq) (hp : Path Move c x d) :
    d.HasLost seq ∧ seq ∉ launched x := by
  induction hp with
  | refl => exact ⟨hl, by simp⟩
  | snoc hq hm ih =>
      obtain ⟨hlost, hout⟩ := ih
      obtain ⟨hlost', hout'⟩ := (hr.path hq).coherent.move_hasLost hlost hm
      exact ⟨hlost', by simp [hout, hout']⟩

theorem Path.plain (hp : Path Move c x d) (hn : ∀ stream part, .input (.response stream part) ∉ x) :
    Plain x := by
  induction hp with
  | refl => exact .nil
  | snoc _ hm ih =>
      simp only [List.mem_append, not_or] at hn
      refine (ih fun stream part => (hn stream part).1).append ?_
      rcases hm.plain with hplain | ⟨stream, part, rfl, -⟩
      · exact hplain
      · exact absurd List.mem_cons_self (hn stream part).2

end Traffic

namespace Session

variable {s : Session} {stream : Option StreamId} {part : Part} {seq sink : Nat} {r : Response}

def takes (s : Session) (stream : Option StreamId) (part : Part) : Option Nat :=
  s.tracker?.bind (·.takes stream part)

def backlog (s : Session) : List Nat :=
  (s.writer?.map fun w => w.queue.map Upload.seq).getD []

theorem takes_of_traffic {c : Traffic} (h : s.traffic? = some c) :
    s.takes stream part = c.tracker.takes stream part := by
  simp [takes, tracker?, (traffic?_eq_some h).1]

theorem backlog_of_traffic {c : Traffic} (h : s.traffic? = some c) : s.backlog = c.queued := by
  simp [backlog, writer?, (traffic?_eq_some h).1, Traffic.queued]

theorem traffic_of_takes (h : s.takes stream part = some seq) : ∃ c, s.traffic? = some c := by
  unfold takes tracker? at h
  split at h
  · exact ⟨_, traffic?_of_phase ‹_›⟩
  · simp at h

theorem respond_complete {i : Input} (hr : .answer sink (.complete r) ∈ (s.respond i).actions) :
    ∃ stream part c, i = .response stream part ∧ s.traffic? = some c
      ∧ .answer sink (.complete r) ∈ (c.tracker.receive stream part).actions := by
  have hloud : ∀ h : List Happening, .action (.answer sink (.complete r)) ∈ h → ¬Plain h :=
    fun h hmem hplain => by simpa [Happening.isPlain] using hplain _ hmem
  cases ht : s.traffic? with
  | none => simpa [Action.isQuiet, Action.isIdle] using respond_quiet ht i _ hr
  | some c =>
      rcases respond_established ht i with ⟨d, -, hpath⟩ | hends
      · have hmem : .action (.answer sink (.complete r))
            ∈ .input i :: ofActions (s.respond i).actions := by
          simpa using hr
        by_cases hi : ∃ stream part, i = .response stream part
        · obtain ⟨stream, part, rfl⟩ := hi
          refine ⟨stream, part, c, rfl, rfl, ?_⟩
          simpa [(response_established ht stream part).2, Traffic.receive] using hr
        · refine absurd (hpath.plain fun stream part hin => hi ⟨stream, part, ?_⟩) (hloud _ hmem)
          simpa [eq_comm] using hin
      · simpa [Action.isQuiet, Action.isIdle] using hends.quiet _ hr

theorem history_complete {inputs : List Input}
    (hr : .action (.answer sink (.complete r)) ∈ s.history inputs) :
    ∃ before i rest, inputs = before ++ i :: rest
      ∧ .answer sink (.complete r) ∈ ((s.after before).respond i).actions := by
  induction inputs generalizing s with
  | nil => simp at hr
  | cons i rest ih =>
      rw [history_cons, List.mem_append] at hr
      rcases hr with hr | hr
      · exact ⟨[], i, rest, rfl, by simpa using hr⟩
      · obtain ⟨before, j, more, rfl, hj⟩ := ih hr
        exact ⟨i :: before, j, more, rfl, hj⟩

theorem enrolled_sink {c : Traffic} {h : List Happening} (hc : Coherent h c) {p q : Nat × Nat}
    (hp : p ∈ enrolled h) (hq : q ∈ enrolled h) (he : p.1 = q.1) : p = q := by
  refine List.inj_on_of_nodup_map ?_ hp hq he
  rw [hc.numbered]
  exact List.nodup_range'

/-- A response is delivered with a part that comes after some input. Each part that was taken for it
found its request enrolled, and its head either written or still waiting to be written. A head that
was not written by then never is. -/
structure Delivery (s : Session) (before : List Input) (stream : Option StreamId) (part : Part)
    (seq sink : Nat) (r : Response) : Prop where
  answered : .answer sink (.complete r) ∈ ((s.after before).respond (.response stream part)).actions
  taken : (s.after before).takes stream part = some seq
  enrolled : ∀ earlier stream' part' later,
    before ++ [.response stream part] = earlier ++ .response stream' part' :: later →
    (s.after earlier).takes stream' part' = some seq → (seq, sink) ∈ enrolled (s.history earlier)
  launched : ∀ earlier stream' part' later,
    before ++ [.response stream part] = earlier ++ .response stream' part' :: later →
    (s.after earlier).takes stream' part' = some seq →
    seq ∈ launched (s.history earlier) ∨ seq ∈ (s.after earlier).backlog
  final : seq ∉ HttpSession.launched (s.history before) →
    ∀ more, seq ∉ HttpSession.launched (s.history (before ++ .response stream part :: more))

theorem exists_append_of_concat {α : Type} {xs ys zs : List α} {x y : α}
    (h : xs ++ [x] = ys ++ y :: zs) : ∃ tail, xs = ys ++ tail := by
  have := congrArg List.dropLast h
  rw [List.dropLast_concat, List.dropLast_append_of_ne_nil (List.cons_ne_nil _ _)] at this
  exact ⟨_, this⟩

theorem IsNew.found_of_takes (hs : s.IsNew) {inputs : List Input}
    (h : (s.after inputs).takes stream part = some seq) :
    (∃ sink, (seq, sink) ∈ enrolled (s.history inputs))
      ∧ (seq ∈ launched (s.history inputs) ∨ seq ∈ (s.after inputs).backlog) := by
  obtain ⟨c, htraffic⟩ := traffic_of_takes h
  have hc := (hs.established inputs htraffic).1.coherent
  rw [takes_of_traffic htraffic] at h
  rw [backlog_of_traffic htraffic]
  obtain ⟨p, hp, rfl⟩ := List.mem_map.1 (Tracker.takes_mem h)
  exact ⟨⟨p.sink, hc.awaited _ (Tracker.mem_awaited hp)⟩,
    List.mem_append.1 (hc.placed _ (Tracker.mem_seqs hp))⟩

theorem IsNew.lost_for_good (hs : s.IsNew) {inputs : List Input} {c : Traffic}
    (h : (s.after inputs).traffic? = some c) (hl : c.HasLost seq)
    (hout : seq ∉ launched (s.history inputs)) (more : List Input) :
    seq ∉ launched (s.history (inputs ++ more)) := by
  obtain ⟨d, x, y, hxy, hpath, hquiet, -⟩ := course h more
  have hlater := ((hs.established inputs h).1.path_hasLost hl hpath).2
  rw [history_append, hxy]
  simp [hquiet.launched, hout, hlater]

/-- A response is only delivered to a request that was there before any part of the response. -/
theorem delivery (hs : s.IsNew) (inputs : List Input)
    (hr : .action (.answer sink (.complete r)) ∈ s.history inputs) :
    ∃ before stream part rest seq, inputs = before ++ .response stream part :: rest
      ∧ s.Delivery before stream part seq sink r := by
  obtain ⟨before, i, rest, rfl, hi⟩ := history_complete hr
  obtain ⟨stream, part, c, rfl, htraffic, hreceive⟩ := respond_complete hi
  have hc := (hs.established before htraffic).1.coherent
  rcases Tracker.receive_replies hc.inOrder stream part _ hreceive with
    hq | ⟨rfl, p, hp, head, htakes, -, hrest, hanswer⟩
  · simp [Action.isQuiet, Action.isIdle] at hq
  · obtain ⟨rfl, -⟩ := Action.answer.inj hanswer
    have henrolled := hc.awaited _ (Tracker.mem_awaited hp)
    refine ⟨before, stream, .finish, rest, p.seq, rfl, {
      answered := hi
      taken := (takes_of_traffic htraffic).trans htakes
      enrolled := fun earlier stream' part' later hsplit htaken => ?_
      launched := fun earlier stream' part' later _ htaken => (hs.found_of_takes htaken).2
      final := fun hout more => ?_ }⟩
    · -- Numbers are given once, so that the caller is the one enrolled now.
      obtain ⟨sink, hearly⟩ := (hs.found_of_takes htaken).1
      obtain ⟨tail, rfl⟩ := exists_append_of_concat hsplit
      have hboth : (p.seq, sink) ∈ HttpSession.enrolled (s.history (earlier ++ tail)) := by
        rw [history_append, enrolled_append]
        exact List.mem_append_left _ hearly
      exact enrolled_sink hc hboth henrolled rfl ▸ hearly
    · obtain ⟨hstep, hactions⟩ := response_established htraffic stream .finish
      have hnext : (s.after (before ++ [.response stream .finish])).traffic?
          = some (c.receive stream .finish).value := by
        rw [after_append]
        exact hstep
      have hlost : (c.receive stream .finish).value.HasLost p.seq := by
        refine ⟨hc.seqs_le (Tracker.mem_seqs hp), ?_⟩
        simp only [Traffic.receive, hrest]
        exact Tracker.erase_seqs _ _
      have hnow : p.seq ∉ HttpSession.launched (s.history (before ++ [.response stream .finish])) := by
        simp [history_append, hactions, (Traffic.receive_silent hc.inOrder stream .finish).1, hout]
      simpa using hs.lost_for_good hnext hlost hnow more

def exchange : List Input :=
  [.negotiated .new true .h1, .dispatch ⟨0, 0, fun _ => false⟩ .default .bare 7,
    .write ⟨0, 0, fun _ => false⟩ fun _ => false,
    .response none (.head ⟨200, .empty⟩), .response none .finish]

theorem delivery_exchange :
    launched ((blank 2).history (exchange.take 3)) = [1]
      ∧ ∃ before stream part rest seq, exchange = before ++ .response stream part :: rest
        ∧ (blank 2).Delivery before stream part seq 7 ⟨⟨200, .empty⟩, [], none⟩ :=
  ⟨by decide +kernel,
    delivery (blank_isNew 2) exchange (Happening.action_mem_iff.2 (by decide +kernel))⟩

def hasty : List Input :=
  [.negotiated .new true .h1, .dispatch ⟨0, 0, fun _ => false⟩ .default .bare 7,
    .response none (.head ⟨200, .empty⟩), .response none .finish]

theorem complete_before_launched :
    (blank 2).IsNew
      ∧ .action (.answer 7 (.complete ⟨⟨200, .empty⟩, [], none⟩)) ∈ (blank 2).history hasty
      ∧ ((blank 2).after (hasty.take 2)).takes none (.head ⟨200, .empty⟩) = some 1
      ∧ launched ((blank 2).history hasty) = [] :=
  ⟨blank_isNew 2, Happening.action_mem_iff.2 (by decide +kernel), by decide +kernel,
    by decide +kernel⟩

end Session

end HttpSession
