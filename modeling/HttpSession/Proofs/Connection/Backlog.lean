import HttpSession.Proofs.Connection.Deadlines
import HttpSession.Proofs.Connection.Queue

namespace HttpSession

namespace Service

variable {s mid next : Service} {log more : List Dealing} {m : Mailbox}

def letters (s : Service) : List Event := s.attempt.connection.letters

/-- Whatever is posted is taken in its turn: nothing is passed over, nothing comes twice, and nothing is
taken behind the end of the transport. -/
structure InTurn (s : Service) (log : List Dealing) (next : Service) : Prop where
  ordered : Dealing.taken log <+: s.letters ++ Dealing.posted log
  conserved : next.isOpen = true → s.letters ++ Dealing.posted log = Dealing.taken log ++ next.letters
  last : .closed ∉ (Dealing.taken log).dropLast
  ends : .closed ∈ Dealing.taken log → next.isOpen = false
  shut : s.isOpen = false → next.isOpen = false ∧ Dealing.posted log = [] ∧ Dealing.taken log = []

namespace InTurn

theorem refl (s : Service) : s.InTurn [] s where
  ordered := List.nil_prefix
  conserved _ := by simp
  last := by simp
  ends := by simp
  shut h := ⟨h, rfl, rfl⟩

theorem trans (hx : s.InTurn log mid) (hy : mid.InTurn more next) : s.InTurn (log ++ more) next := by
  cases hmid : mid.isOpen with
  | false =>
      obtain ⟨hnext, hposted, htaken⟩ := hy.shut hmid
      have hposted : Dealing.posted (log ++ more) = Dealing.posted log := by simp [hposted]
      have htaken : Dealing.taken (log ++ more) = Dealing.taken log := by simp [htaken]
      refine ⟨?_, fun h => by simp [hnext] at h, ?_, fun _ => hnext, fun h => ?_⟩
      · rw [hposted, htaken]
        exact hx.ordered
      · rw [htaken]
        exact hx.last
      · rw [hposted, htaken]
        exact ⟨hnext, (hx.shut h).2⟩
  | true =>
      have hfirst := hx.conserved hmid
      have hgoes : .closed ∉ Dealing.taken log := fun hc => by simp [hx.ends hc] at hmid
      refine ⟨?_, fun h => ?_, ?_, fun hc => ?_, fun h => by simp [(hx.shut h).1] at hmid⟩
      · rw [Dealing.posted_append, Dealing.taken_append, ← List.append_assoc, hfirst, List.append_assoc]
        exact (List.prefix_append_right_inj _).2 hy.ordered
      · rw [Dealing.posted_append, Dealing.taken_append, ← List.append_assoc, hfirst, List.append_assoc,
          hy.conserved h, List.append_assoc]
      · rw [Dealing.taken_append]
        cases hmore : Dealing.taken more with
        | nil =>
            rw [List.append_nil]
            exact fun hc => hgoes (List.dropLast_subset _ hc)
        | cons e es =>
            rw [List.dropLast_append_of_ne_nil (by simp), ← hmore]
            exact fun hc => (List.mem_append.1 hc).elim hgoes hy.last
      · rw [Dealing.taken_append] at hc
        exact (List.mem_append.1 hc).elim (absurd · hgoes) hy.ends

end InTurn

end Service

def Occasion.isDrop : Occasion → Bool
  | .drop _ => true
  | _ => false

namespace Service

variable {s next : Service} {log : List Dealing} {o : Occasion}

inductive Meets (s : Service) : Occasion → List Dealing → Service → Prop
  | still {o : Occasion} {next : Service} (still : o.isPoll = false) (letters : next.letters = s.letters)
      (life : next.isOpen = s.isOpen) : Meets s o [] next
  | post {o : Occasion} {next : Service} (es : List Event) (still : o.isPoll = false)
      (running : s.isOpen = true) (letters : next.letters = s.letters ++ es.map Event.bare)
      (life : next.isOpen = true) : Meets s o (es.map .post) next
  | shut {o : Occasion} {next : Service} (drops : o.isDrop = true) (letters : next.letters = [])
      (life : next.isOpen = false) : Meets s o [.shut] next
  | poll {clock : Clock} {gone : Nat → Bool} {next : Service} {log : List Entry} {outcome : Outcome}
      (polls : s.attempt.Polls clock gone log (next.attempt, outcome)) :
      Meets s (.poll clock gone) (Entry.dealings log) next

theorem Meets.ofPosted {o : Occasion} (es : List Event) (still : o.isPoll = false)
    (posted : log = if s.isOpen then es.map .post else [])
    (queue : next.attempt.connection
      = { s.attempt.connection with
          queue := s.attempt.connection.queue ++ if s.isOpen then es else [] }) : Meets s o log next := by
  have hlife : next.isOpen = s.isOpen := by
    rw [isOpen, queue]
    rfl
  have hletters : next.letters = s.letters ++ (if s.isOpen then es else []).map Event.bare := by
    rw [letters, queue]
    exact List.map_append
  rw [posted]
  cases ho : s.isOpen with
  | false => exact .still still (by simpa [ho] using hletters) hlife
  | true => exact .post es still ho (by simpa [ho] using hletters) (hlife.trans ho)

theorem meet_meets (s : Service) (o : Occasion) : Meets s o (s.meet o).dealings (s.meet o).value := by
  cases o with
  | tell events plain =>
      refine .ofPosted events rfl ?_ ?_ <;> cases ho : s.attempt.connection.isOpen <;>
        simp [meet, told, Connection.send, Connection.post, Logged.dealings, mapConnection, isOpen, ho]
  | ask options request =>
      refine .ofPosted [.dispatch ⟨options, request, s.asked⟩] rfl ?_ ?_ <;>
        cases ho : s.attempt.connection.isOpen <;>
        simp [meet, asks, Connection.submit, Connection.post, Logged.dealings, mapConnection, isOpen, ho]
  | poll clock gone =>
      rw [meet_poll]
      exact .poll (s.polled_polls clock gone)
  | drop crashed =>
      have hmeet : (s.meet (.drop crashed)).dealings = [.shut] := by
        simp [meet, dropped, Connection.drop, Logged.dealings]
      rw [hmeet]
      exact .shut rfl rfl rfl
  | feed source frames ended =>
      refine .still rfl ?_ rfl
      simp [meet, letters, mapConnection, Connection.feed, Connection.letters, Function.comp_def,
        Event.bare_feed]
  | touch | hold | cut | promise => exact .still rfl rfl rfl

namespace Meets

variable {m : Mailbox} {first behind : List Event}

theorem inTurn (h : Meets s o log next) : s.InTurn log next := by
  cases h with
  | still still letters life =>
      exact ⟨List.nil_prefix, fun _ => by simp [letters], by simp, by simp, fun h => ⟨life.trans h, rfl, rfl⟩⟩
  | post es still running letters life =>
      exact ⟨by simp, fun _ => by simp [letters], by simp, by simp, fun h => by simp [running] at h⟩
  | shut drops letters life =>
      exact ⟨List.nil_prefix, fun h => by simp [life] at h, by simp, fun _ => life, fun _ => ⟨life, rfl, rfl⟩⟩
  | poll polls =>
      obtain ⟨hconserved, hordered, hlast, hover⟩ := polls.order
      refine ⟨hordered, hconserved, hlast, hover, fun h => ?_⟩
      obtain ⟨hsame, hnone⟩ := polls.of_over h
      exact ⟨(congrArg (·.connection.isOpen) hsame).trans h, by simp [hnone], by simp [hnone]⟩

theorem reads (h : Meets s o log next) (hm : s.attempt.Reads m) :
    ∃ last, m.Dealt log last ∧ next.attempt.Reads last := by
  cases h with
  | still still letters life =>
      exact ⟨m, .nil m, hm.contents.trans letters.symm, hm.sound, fun h => hm.alert (life.symm.trans h)⟩
  | post es still running letters life =>
      have hdealt := m.post_dealt es
      refine ⟨_, hdealt, ?_, hdealt.sound hm.sound, fun _ => ?_⟩
      · rw [Mailbox.post_contents, hm.contents]
        exact letters.symm
      · exact (hm.alert running).imp id fun h => h.post (es.map Event.bare)
  | shut drops letters life =>
      have hdealt : m.Dealt [.shut] { m with contents := [] } := .cons (.shut m) (.nil _)
      exact ⟨_, hdealt, letters.symm, hdealt.sound hm.sound, fun h => absurd (life.symm.trans h) (by simp)⟩
  | poll polls =>
      obtain ⟨last, hdealt, hreads, -⟩ := polls.reads hm
      exact ⟨last, hdealt, hreads⟩

theorem waits (h : Meets s o log next) (kept : o.isDrop = false) (still : o.isPoll = false)
    (ho : s.isOpen = true) (hq : s.letters = first ++ behind) :
    Dealing.taken log = [] ∧ next.isOpen = true ∧ ∃ more, next.letters = first ++ more := by
  cases h with
  | still still letters life => exact ⟨rfl, life.trans ho, behind, letters.trans hq⟩
  | post es still running letters life =>
      exact ⟨Dealing.taken_posts, life, behind ++ es.map Event.bare, by rw [letters, hq, List.append_assoc]⟩
  | shut drops letters life => simp [kept] at drops
  | poll polls => simp [Occasion.isPoll] at still

end Meets

theorem run_inTurn (s : Service) (occasions : List Occasion) :
    s.InTurn (s.run occasions).dealings (s.run occasions).value := by
  induction occasions generalizing s with
  | nil => exact .refl s
  | cons o rest ih =>
      rw [run, Logged.dealings_bind]
      exact (s.meet_meets o).inTurn.trans (ih _)

theorem run_reads {m : Mailbox} (hm : s.attempt.Reads m) (occasions : List Occasion) :
    ∃ last, m.Dealt (s.run occasions).dealings last ∧ (s.run occasions).value.attempt.Reads last := by
  induction occasions generalizing s m with
  | nil => exact ⟨m, .nil m, hm⟩
  | cons o rest ih =>
      obtain ⟨mid, hfirst, hmid⟩ := (s.meet_meets o).reads hm
      obtain ⟨last, hrest, hlast⟩ := ih hmid
      rw [run, Logged.dealings_bind]
      exact ⟨last, hfirst.append hrest, hlast⟩

theorem run_backlog (ho : s.isOpen = true) {backlog behind : List Event}
    (hq : s.letters = backlog ++ behind) (hc : .closed ∉ backlog) {occasions : List Occasion}
    (kept : ∀ o ∈ occasions, o.isDrop = false)
    (enough : backlog.length ≤ 16 * occasions.countP Occasion.isPoll) :
    backlog <+: Dealing.taken (s.run occasions).dealings := by
  induction occasions generalizing s backlog behind with
  | nil =>
      obtain rfl : backlog = [] := List.length_eq_zero_iff.1 (by simpa using enough)
      exact List.nil_prefix
  | cons o rest ih =>
      have hkept : ∀ o ∈ rest, o.isDrop = false := fun o ho => kept o (List.mem_cons_of_mem _ ho)
      rw [run, Logged.dealings_bind, Dealing.taken_append]
      cases hpoll : o.isPoll with
      | false =>
          obtain ⟨hnone, hopen, more, hmore⟩ :=
            (s.meet_meets o).waits (kept o List.mem_cons_self) hpoll ho hq
          rw [hnone]
          exact ih hopen hmore hc hkept (by simpa [hpoll] using enough)
      | true =>
          obtain ⟨clock, gone, rfl⟩ : ∃ clock gone, o = .poll clock gone := by
            cases o <;> simp [Occasion.isPoll] at hpoll
            exact ⟨_, _, rfl⟩
          rw [meet_poll]
          rcases (s.polled_polls clock gone).backlog ho hq hc with
            hall | ⟨-, htaken, -, hopen, more, hmore⟩
          · exact hall.trans (List.prefix_append _ _)
          · have hrest := ih (s := (s.polled clock gone).value.1) hopen hmore
              (fun h => hc (List.mem_of_mem_drop h)) hkept (by
                rw [List.countP_cons_of_pos hpoll] at enough
                rw [List.length_drop, Attempt.eventsPerPoll]
                omega)
            have hsplit : backlog = backlog.take 16 ++ backlog.drop 16 := (List.take_append_drop ..).symm
            have htaken : Dealing.taken (Entry.dealings (s.polled clock gone).log) = backlog.take 16 := htaken
            rw [Logged.dealings, htaken]
            nth_rewrite 1 [hsplit]
            exact (List.prefix_append_right_inj _).2 hrest

theorem fresh_reads (session : Session) (id k : Nat) (closesAtOnce : Bool) (promise : Promise) :
    (start id k session closesAtOnce promise).attempt.Reads .fresh where
  contents := rfl
  sound := ⟨by simp [Mailbox.fresh], by simp [Mailbox.fresh]⟩
  alert _ := .inl rfl

/-- Of all that a poll takes the session hears, in that order, and what the session does about it the
connection does. A poll that is to go on has kept the time and written, and its waker has been woken exactly
if something is left to take. A poll that ends the connection does so behind all that was waiting: it has
taken the end of the transport, or nobody can send any more. -/
structure Attends (s : Service) (before : List Dealing) (clock : Clock) (gone : Nat → Bool)
    (polled : Logged (Service × Outcome)) : Prop where
  hears : s.Hears ⟨polled.value.1, polled.log⟩
  events : ∃ ends, eventsOf polled.inputs = Dealing.taken polled.dealings ++ ends
    ∧ ends ⊆ [.closed] ∧ ((∀ fault, polled.value.2 ≠ .ready fault) → ends = [])
  works : ∀ woken, polled.value.2 = .pending woken →
    ∃ inputs, polled.inputs = inputs ++ [.keepTime clock, .write clock gone, .publish]
  wakes : ∀ woken, polled.value.2 = .pending woken →
    ∃ m, Mailbox.fresh.Dealt (before ++ polled.dealings) m ∧ m.contents = polled.value.1.letters
      ∧ (m.contents ≠ [] → m.polls ∈ m.woken) ∧ (woken = true ↔ m.polls ∈ m.woken)
  closes : ∀ fault, polled.value.2 = .ready fault → s.isOpen = true →
    s.attempt.connection.isReachable = true → .closed ∈ Dealing.taken polled.dealings
  clears : ∀ fault, polled.value.2 = .ready fault → s.isOpen = true →
    ∀ backlog behind, s.letters = backlog ++ behind → .closed ∉ backlog →
      backlog <+: Dealing.taken polled.dealings

theorem attends {m : Mailbox} (hdealt : Mailbox.fresh.Dealt log m) (hm : s.attempt.Reads m)
    (clock : Clock) (gone : Nat → Bool) : s.Attends log clock gone (s.polled clock gone) := by
  have hpolls := s.polled_polls clock gone
  refine ⟨.ofAttempt hpolls.hears, hpolls.events, fun woken hp => hpolls.works hp, fun woken hp => ?_,
    fun fault hr ho reachable => hpolls.closed_of_ready ho reachable hr,
    fun fault hr ho backlog behind hq hc => ?_⟩
  · obtain ⟨last, hmore, hlast, hflag⟩ := hpolls.reads hm
    obtain ⟨hwoken, hleft⟩ := hflag woken hp
    exact ⟨last, hdealt.append hmore, hlast.contents, hleft, hwoken⟩
  · rcases hpolls.backlog ho hq hc with hall | ⟨-, -, hstays, -⟩
    · exact hall
    · exact absurd hr (hstays fault)

/-- Every event that was sent is handled in its turn, or waits for it in a channel whose reader has been
woken or will be, and sixteen that wait are handled in every poll. -/
theorem events_in_turn (session : Session) (id k : Nat) (closesAtOnce : Bool) (promise : Promise)
    (occasions : List Occasion) :
    let first := start id k session closesAtOnce promise
    let run := first.run occasions
    first.InTurn run.dealings run.value
      ∧ first.Hears run
      ∧ (∃ m, Mailbox.fresh.Dealt run.dealings m ∧ run.value.attempt.Reads m)
      ∧ (∀ clock gone, run.value.Attends run.dealings clock gone (run.value.polled clock gone))
      ∧ ∀ backlog behind later, run.value.isOpen = true → run.value.letters = backlog ++ behind →
        .closed ∉ backlog → (∀ o ∈ later, o.isDrop = false) →
        (backlog.length + 15) / 16 ≤ later.countP Occasion.isPoll →
        backlog <+: Dealing.taken (run.value.run later).dealings := by
  intro first run
  obtain ⟨m, hdealt, hreads⟩ := run_reads (fresh_reads session id k closesAtOnce promise) occasions
  refine ⟨first.run_inTurn occasions, first.run_hears occasions, ⟨m, hdealt, hreads⟩,
    attends hdealt hreads, fun backlog behind later ho hq hc kept enough => ?_⟩
  exact run_backlog ho hq hc kept (by omega)

def swamped : List Occasion :=
  [.tell (List.replicate 17 .active) (by simp [Event.debts])]

theorem events_in_turn_swamped :
    let first := start 0 0 hurried true .new
    let early : Occasion := .poll (.steady 0) fun _ => false
    let late := (first.run (swamped ++ [early])).value.polled (.steady defaultNegotiationTimeout) fun _ => false
    List.replicate 17 .active
        <+: Dealing.taken ((first.run swamped).value.run [early, early]).dealings
      ∧ eventsOf late.inputs = [.active]
      ∧ ∃ m, Mailbox.fresh.Dealt ((first.run (swamped ++ [early])).dealings ++ late.dealings) m
        ∧ m.contents = [.closed] ∧ m.polls ∈ m.woken := by
  intro first early late
  obtain ⟨-, -, -, -, hbacklog⟩ := events_in_turn hurried 0 0 true .new swamped
  obtain ⟨-, -, -, hpoll, -⟩ := events_in_turn hurried 0 0 true .new (swamped ++ [early])
  obtain ⟨m, hdealt, hcontents, hwoken, -⟩ :=
    (hpoll (.steady defaultNegotiationTimeout) fun _ => false).wakes true (by decide +kernel)
  have hclosed : m.contents = [.closed] := hcontents.trans (by decide +kernel)
  refine ⟨?_, by decide +kernel, m, hdealt, hclosed, hwoken (by simp [hclosed])⟩
  exact hbacklog _ [] [early, early] (by decide +kernel) (by decide +kernel) (by simp)
    (by simp [early, Occasion.isDrop]) (Nat.le_refl 2)

end Service

end HttpSession
