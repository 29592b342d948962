import HttpSession.Proofs.Streams.Course
import Mathlib.Data.List.Induction

namespace HttpSession

/-- A tracker of streams with all that it did, and what the writer took over from it. -/
structure Watch where
  tracker : Tracker
  actions : List Action
  taken : List Abandoned

namespace Watch

open Tracker (Multiplexes Fits)

def start : Watch := ⟨.new .byStream, [], []⟩

def given (w : Watch) : List Abandoned := w.taken ++ w.tracker.abandoned

def step (w : Watch) (u : Use) : Watch :=
  let r := w.tracker.use u
  ⟨r.value.tracker, w.actions ++ r.actions,
    w.taken ++ if u = .handOver then w.tracker.abandoned else []⟩

def run (uses : List Use) : Watch := uses.foldl step start

theorem run_snoc (uses : List Use) (u : Use) : run (uses ++ [u]) = (run uses).step u := by
  rw [run, List.foldl_append]
  rfl

variable {w : Watch} {seq sink maxLength : Nat} {deadline : Option Instant} {course : Course}

structure Sees (w : Watch) (seq sink : Nat) (entry : Option Pending) (replied : List Reply)
    (resets : List Bool) : Prop where
  entry : w.tracker.find? seq = entry
  replied : Action.replies sink w.actions = replied
  given : Abandoned.resets seq w.given = resets

theorem Sees.handOver {entry : Option Pending} {replied : List Reply} {resets : List Bool}
    (hs : w.Sees seq sink entry replied resets) :
    (w.step .handOver).Sees seq sink entry replied resets where
  entry := hs.entry
  replied := by simpa [step, Tracker.use, Tracker.accepted] using hs.replied
  given := by simpa [Watch.step, Tracker.use, Tracker.accepted, Watch.given] using hs.given

theorem Sees.step {entry later : Option Pending} {replied more : List Reply} {resets others : List Bool}
    (hs : w.Sees seq sink entry replied resets) {u : Use} (hheld : u ≠ .handOver)
    (hshows : w.tracker.Shows seq sink (Tracker.Received.traced (w.tracker.use u)) later more others) :
    (w.step u).Sees seq sink later (replied ++ more) (resets ++ others) where
  entry := hshows.entry
  replied := by
    rw [Watch.step, Action.replies_append, hs.replied]
    exact congrArg (replied ++ ·) hshows.replied
  given := by
    have hgiven := hs.given
    rw [Watch.given, Abandoned.resets_append] at hgiven
    rw [Watch.given, Watch.step, if_neg hheld, List.append_nil, Abandoned.resets_append]
    refine (congrArg (_ ++ ·) hshows.given).trans ?_
    rw [← List.append_assoc, hgiven]

theorem run_multiplexes {uses : List Use} (hd : Use.Distinct uses) :
    Multiplexes (Use.enrolled uses) (run uses).tracker := by
  induction uses using List.reverseRecOn with
  | nil => exact .start
  | append_singleton uses u ih =>
      have huse := (ih hd.left).use u fun p hp => (hd.fresh hp).1
      have hsnoc : Use.enrolled (uses ++ [u]) = Use.enrolled uses ++ u.enrolled?.toList := by
        rw [Use.enrolled_append]
        cases hu : u.enrolled? <;> simp [Use.enrolled, hu]
      rw [run_snoc, hsnoc]
      exact huse

variable {u : Use} {entry : Option Pending} {replied : List Reply} {resets : List Bool}
  {roll : List (Nat × Nat)}

theorem Sees.spared (hs : w.Sees seq sink entry replied resets) (hm : Multiplexes roll w.tracker)
    (hown : w.tracker.Own seq sink) (hnew : ∀ p, u.enrolled? = some p → p.1 ≠ seq)
    (hnone : ∀ p, entry = some p → u.notice? p.seq p.deadline = none) :
    (w.step u).Sees seq sink entry replied resets := by
  by_cases hheld : u = .handOver
  · rw [hheld]
    exact hs.handOver
  · have heffect := Tracker.use_effect hm.inOrder hm.binding u
    have hshows := heffect.spares hm.inOrder hown hnew hheld (hs.entry ▸ hnone)
    simpa [hs.entry] using hs.step hheld hshows

theorem run_unseen {uses : List Use} (hd : Use.Distinct uses)
    (hseq : seq ∉ (Use.enrolled uses).map Prod.fst) (hsink : sink ∉ (Use.enrolled uses).map Prod.snd) :
    (run uses).Sees seq sink none [] [] := by
  induction uses using List.reverseRecOn with
  | nil => exact ⟨rfl, rfl, rfl⟩
  | append_singleton uses u ih =>
      simp only [Use.enrolled_append, List.map_append, List.mem_append, not_or] at hseq hsink
      have hm := run_multiplexes hd.left
      have hown : (run uses).tracker.Own seq sink := by
        intro p hp
        have hroll := hm.awaited (Tracker.mem_awaited hp)
        constructor
        · rintro rfl
          exact absurd (List.mem_map_of_mem hroll) hsink.1
        · rintro rfl
          exact absurd (List.mem_map_of_mem hroll) hseq.1
      rw [run_snoc]
      refine (ih hd.left hseq.1 hsink.1).spared hm hown ?_ (by simp)
      rintro p hp rfl
      exact hseq.2 (by simp [Use.enrolled, hp])

theorem own {uses others : List Use} (hd : Use.Distinct (uses ++ others))
    (hin : (seq, sink) ∈ Use.enrolled (uses ++ others)) : (run uses).tracker.Own seq sink := by
  intro p hp
  have hroll : (p.seq, p.sink) ∈ Use.enrolled (uses ++ others) := by
    rw [Use.enrolled_append]
    exact List.mem_append_left _ ((run_multiplexes hd.left).awaited (Tracker.mem_awaited hp))
  constructor
  · intro hsink
    exact congrArg Prod.fst (List.inj_on_of_nodup_map hd.2 hroll hin hsink)
  · intro hseq
    exact congrArg Prod.snd (List.inj_on_of_nodup_map hd.1 hroll hin hseq)

def Follows (w : Watch) (seq sink maxLength : Nat) (deadline : Option Instant) (course : Course) : Prop :=
  ∃ entry, Fits sink maxLength deadline course entry
    ∧ w.Sees seq sink entry course.replies course.resets

theorem Sees.register (hs : w.Sees seq sink none [] []) (hm : Multiplexes roll w.tracker) :
    (w.step (.register seq sink maxLength deadline)).Follows seq sink maxLength deadline
      (.awaited none) := by
  have hout : seq ∉ w.tracker.seqs := Tracker.find?_eq_none.1 hs.entry
  refine ⟨_, .awaited rfl rfl rfl ⟨rfl, rfl, rfl⟩,
    hm.inOrder.register_find? sink maxLength deadline hout, ?_, ?_⟩
  · simpa [Watch.step, Tracker.use, Tracker.accepted, Course.replies] using hs.replied
  · simpa [Watch.step, Tracker.use, Tracker.accepted, Watch.given, Tracker.register, Course.resets]
      using hs.given

theorem Follows.step (hf : w.Follows seq sink maxLength deadline course)
    (hm : Multiplexes roll w.tracker) (hown : w.tracker.Own seq sink) (named : HasStream seq)
    (hnew : ∀ p, u.enrolled? = some p → p.1 ≠ seq) :
    (w.step u).Follows seq sink maxLength deadline
      ((u.notice? seq deadline).elim course (course.meet maxLength)) := by
  obtain ⟨entry, hfits, hsees⟩ := hf
  cases hn : u.notice? seq deadline with
  | none =>
      refine ⟨entry, hfits, hsees.spared hm hown hnew ?_⟩
      intro p hp
      cases hfits with
      | awaited _ _ due =>
          obtain rfl := Option.some.inj hp
          rw [(Tracker.find?_eq_some hsees.entry).2, due, hn]
      | ended => simp at hp
  | some n =>
      cases hfits with
      | ended reply reset =>
          refine ⟨none, .ended reply reset, hsees.spared hm hown hnew (by simp)⟩
      | @awaited draft p hsink hlimit hdue hdrafts =>
          subst hsink hlimit hdue
          have hheld : u ≠ .handOver := by
            rintro rfl
            simp [Use.notice?] at hn
          obtain ⟨later, hfits, hshows⟩ := Tracker.use_goes hm.inOrder hm.binding hm.synced hown named
            hsees.entry hdrafts hn
          exact ⟨later, hfits, by simpa [Course.replies, Course.resets] using hsees.step hheld hshows⟩

theorem run_follows {before after : List Use} (named : HasStream seq)
    (hd : Use.Distinct (before ++ .register seq sink maxLength deadline :: after)) :
    (run (before ++ .register seq sink maxLength deadline :: after)).Follows seq sink maxLength deadline
      (.of maxLength (after.filterMap (Use.notice? seq deadline))) := by
  have hfresh := hd.fresh (p := (seq, sink)) rfl
  induction after using List.reverseRecOn with
  | nil =>
      rw [run_snoc]
      exact (run_unseen hd.left hfresh.1 hfresh.2).register (run_multiplexes hd.left)
  | append_singleton rest u ih =>
      rw [← List.cons_append, ← List.append_assoc] at hd ⊢
      have hin : (seq, sink) ∈ Use.enrolled (before ++ .register seq sink maxLength deadline :: rest) := by
        simp [Use.enrolled, Use.enrolled?]
      have hown := own hd (Use.enrolled_append _ [u] ▸ List.mem_append_left _ hin)
      have hnew : ∀ p, u.enrolled? = some p → p.1 ≠ seq := by
        rintro p hp rfl
        exact (hd.fresh hp).1 (List.mem_map.2 ⟨_, hin, rfl⟩)
      have hstep := (ih hd.left).step (run_multiplexes hd.left) hown named hnew
      rw [run_snoc, List.filterMap_append, Course.of_append]
      cases hn : u.notice? seq deadline <;> simpa [hn] using hstep

theorem find?_eq_none_of_replied {before after earlier later : List Use} {u : Use}
    (named : HasStream seq)
    (hd : Use.Distinct (before ++ .register seq sink maxLength deadline :: after))
    (hsplit : before ++ .register seq sink maxLength deadline :: after = earlier ++ u :: later)
    (hr : Action.replies sink (run earlier).actions ≠ []) :
    (run earlier).tracker.find? seq = none := by
  have hfresh := hd.fresh (p := (seq, sink)) rfl
  rcases List.append_eq_append_iff.1 hsplit with ⟨tail, rfl, htail⟩ | ⟨tail, rfl, -⟩
  · cases tail with
    | nil =>
        rw [List.append_nil] at hr
        exact absurd (run_unseen hd.left hfresh.1 hfresh.2).replied hr
    | cons v mid =>
        obtain ⟨rfl, -⟩ := List.cons.inj htail
        rw [hsplit] at hd
        obtain ⟨entry, hfits, hsees⟩ := run_follows named hd.left
        generalize Course.of maxLength (mid.filterMap (Use.notice? seq deadline)) = course
          at hfits hsees
        cases hfits with
        | awaited => exact absurd hsees.replied hr
        | ended => exact hsees.entry
  · rw [Use.enrolled_append, List.map_append, List.map_append, List.mem_append, List.mem_append,
      not_or, not_or] at hfresh
    exact absurd (run_unseen hd.left.left hfresh.1.1 hfresh.2.1).replied hr

/-- How a request fares among others: its caller and the writer are told what its course came to, and
no more. Parts that come after the reply are ignored, parts against the protocol change nothing, and
the connection is closed only when nothing is awaited and nothing will be. -/
structure Separates (uses : List Use) (seq sink : Nat) (course : Course) : Prop where
  replied : Action.replies sink (run uses).actions = course.replies
  given : Abandoned.resets seq (run uses).given = course.resets
  synced : (run uses).tracker.desynced = false
  ignored : ∀ earlier part later, uses = earlier ++ .receive (some (streamOf seq)) part :: later →
    Action.replies sink (run earlier).actions ≠ [] →
    (run earlier).tracker.use (.receive (some (streamOf seq)) part)
      = ⟨⟨(run earlier).tracker, none⟩, []⟩
  rejected : ∀ earlier u later fault, uses = earlier ++ u :: later →
    ((run earlier).tracker.use u).value.fault = some fault →
    (run earlier).tracker.use u = ⟨⟨(run earlier).tracker, some fault⟩, []⟩
  closed : ∀ earlier u later, uses = earlier ++ u :: later →
    .call .close ∈ ((run earlier).tracker.use u).actions →
    (run (earlier ++ [u])).tracker.draining = true ∧ (run (earlier ++ [u])).tracker.pending = []

/-- Over HTTP/2 what a request comes to depends on nothing but the parts on its own stream, its own
limits, and what is done to that request. -/
theorem demultiplexed {before after : List Use} (named : HasStream seq)
    (distinct : Use.Distinct (before ++ .register seq sink maxLength deadline :: after)) :
    Separates (before ++ .register seq sink maxLength deadline :: after) seq sink
      (.of maxLength (after.filterMap (Use.notice? seq deadline))) := by
  obtain ⟨entry, -, hsees⟩ := run_follows named distinct
  have hm : ∀ {earlier u later},
      before ++ .register seq sink maxLength deadline :: after = earlier ++ u :: later →
      Multiplexes (Use.enrolled earlier) (run earlier).tracker :=
    fun hsplit => run_multiplexes (hsplit ▸ distinct).left
  refine ⟨hsees.replied, hsees.given, (run_multiplexes distinct).synced, ?_, ?_, ?_⟩
  · intro earlier part later hsplit hr
    have hnone := find?_eq_none_of_replied named distinct hsplit hr
    simp [Tracker.use, Tracker.receive, (hm hsplit).synced, Tracker.route, (hm hsplit).binding,
      seqOf?_streamOf named, hnone, Tracker.accepted]
  · intro earlier u later fault hsplit hfault
    have heffect := Tracker.use_effect (hm hsplit).inOrder (hm hsplit).binding u
    rw [heffect.rejected (by simp [hfault]), hfault]
  · intro earlier u later hsplit hclose
    have heffect := Tracker.use_effect (hm hsplit).inOrder (hm hsplit).binding u
    rw [run_snoc]
    exact heffect.drained_of_close hclose

def crossed : List Use :=
  [.register 1 11 0 none, .register 2 12 4 (some 100), .receive (some 1) (.head ⟨103, .empty⟩),
    .receive (some 3) (.head ⟨200, .empty⟩), .receive (some 1) (.data (ascii "early")),
    .receive (some 3) (.data (ascii "abc")), .register 3 13 0 (some 20), .expire 50,
    .receive (some 1) (.head ⟨200, .empty⟩), .receive (some 3) (.data (ascii "de")), .handOver,
    .receive (some 3) .finish, .receive (some 1) .finish, .drain]

theorem demultiplexed_crossed :
    HasStream 2 ∧ Use.Distinct crossed
      ∧ Action.replies 12 (run crossed).actions = [.failed Fault.tooLarge]
      ∧ Abandoned.resets 2 (run crossed).given = [true] := by
  have named : HasStream 2 := by decide
  have distinct : Use.Distinct crossed := by decide
  have hseparates := @demultiplexed 2 12 4 (some 100) (crossed.take 1) (crossed.drop 2) named distinct
  exact ⟨named, distinct, hseparates.replied, hseparates.given⟩

end Watch

end HttpSession
