import HttpSession.Proofs.Connection.Trace

namespace HttpSession

namespace Attempt

variable {a : Attempt} {clock : Clock} {gone : Nat → Bool} {n : Nat} {log : List Entry}

def pop (a : Attempt) (rest : List Event) : Attempt :=
  { a with connection := { a.connection with queue := rest } }

namespace Hears

variable {b : Attempt} {inputs : List Input}

theorem ofPop {rest : List Event} (h : Hears (a.pop rest) inputs log b) : Hears a inputs log b :=
  ⟨h.heard, h.session, h.happenings, h.notices, h.id, h.place, h.promise⟩

theorem dealing (h : Hears a inputs log b) (d : Dealing) : Hears a inputs (.dealing d :: log) b :=
  ⟨h.heard, h.session, h.happenings, by simpa using h.notices, h.id, h.place, h.promise⟩

end Hears

inductive Takes (clock : Clock) : Nat → Attempt → List Entry → Attempt × Intake → Prop
  | interrupted (a : Attempt) : Takes clock 0 a [.dealing .wake] (a, .interrupted)
  | emptied {n : Nat} {a : Attempt} (empty : a.connection.queue = [])
      (reachable : a.connection.isReachable = true) :
      Takes clock (n + 1) a [.dealing .rest] (a, .emptied)
  | deserted {n : Nat} {a : Attempt} (empty : a.connection.queue = [])
      (unreachable : a.connection.isReachable = false) :
      Takes clock (n + 1) a a.close.log (a.close.value, .ended)
  | closed {n : Nat} {a : Attempt} {rest : List Event} (first : a.connection.queue = .closed :: rest) :
      Takes clock (n + 1) a (.dealing (.take .closed) :: (a.pop rest).close.log)
        ((a.pop rest).close.value, .ended)
  | event {n : Nat} {a : Attempt} {e : Event} {rest : List Event} {log : List Entry}
      {r : Attempt × Intake} (first : a.connection.queue = e :: rest) (other : e ≠ .closed)
      (later : Takes clock n ((a.pop rest).handle clock e).value log r) :
      Takes clock (n + 1) a (.dealing (.take e) :: ((a.pop rest).handle clock e).log ++ log) r

theorem intake_takes (clock : Clock) (n : Nat) (a : Attempt) :
    Takes clock n a (intake clock n a).log (intake clock n a).value := by
  induction n generalizing a with
  | zero => exact .interrupted a
  | succ n ih =>
      cases hqueue : a.connection.queue with
      | nil =>
          cases hreach : a.connection.isReachable with
          | true => simpa [intake, hqueue, hreach] using .emptied hqueue hreach
          | false => simpa [intake, hqueue, hreach] using .deserted hqueue hreach
      | cons e rest =>
          by_cases he : e = .closed
          · subst he
            simpa [intake, hqueue] using .closed hqueue
          · simpa [intake, hqueue, he] using .event hqueue he (ih _)

namespace Takes

variable {r : Attempt × Intake}

theorem hears (h : Takes clock n a log r) : Hears a (Entry.inputs log) log r.1 := by
  induction h with
  | interrupted a | emptied => exact (Hears.refl _).aside rfl rfl rfl rfl rfl rfl (by simp)
  | @deserted n a => exact (hear_works a (.closed a.promise)).heard ▸ (hear_works a _).toHears
  | @closed n a rest first =>
      have hclose := hear_works (a.pop rest) (.closed a.promise)
      exact hclose.heard ▸ hclose.toHears.ofPop.dealing _
  | @event n a e rest log r first other later ih =>
      have hboth := (((a.pop rest).handle_works clock e).toHears.ofPop.dealing (.take e)).trans ih
      exact hboth.heard ▸ hboth

theorem input_of (h : Takes clock n a log r) :
    ∀ i ∈ Entry.inputs log, ∃ (b : Attempt) (e : Event), i = b.input clock e := by
  induction h with
  | interrupted | emptied => simp
  | @deserted n a =>
      rw [close, (hear_works a (.closed a.promise)).heard]
      exact fun i hi => ⟨a, .closed, List.mem_singleton.1 hi⟩
  | @closed n a rest =>
      rw [close, Entry.inputs_dealing, (hear_works (a.pop rest) (.closed (a.pop rest).promise)).heard]
      exact fun i hi => ⟨a.pop rest, .closed, List.mem_singleton.1 hi⟩
  | @event n a e rest log r first other later ih =>
      intro i hi
      rw [List.cons_append, Entry.inputs_dealing, Entry.inputs_append,
        ((a.pop rest).handle_works clock e).heard] at hi
      rcases List.mem_cons.1 hi with rfl | hi
      · exact ⟨a.pop rest, e, rfl⟩
      · exact ih i hi

theorem life (h : Takes clock n a log r) : r.1.connection.life = a.connection.life := by
  induction h with
  | interrupted | emptied => rfl
  | @deserted n a => exact (hear_works a (.closed a.promise)).life
  | @closed n a rest first => exact (hear_works (a.pop rest) (.closed a.promise)).life
  | @event n a e rest log r first other later ih => exact ih.trans ((a.pop rest).handle_works clock e).life

end Takes

theorem poll_of_over (ho : a.connection.isOpen = false) (clock : Clock) (gone : Nat → Bool) :
    a.poll clock gone = pure (a, .ready none) := by
  simp [poll, ho]

inductive Goes (interrupted : Bool) (a : Attempt) : Option String → Outcome → Prop
  | crashed (text : String) : Goes interrupted a (some text) (.crashed text)
  | pending : Goes interrupted a none (.pending (interrupted || !a.connection.queue.isEmpty))

inductive Polls (a : Attempt) (clock : Clock) (gone : Nat → Bool) :
    List Entry → Attempt × Outcome → Prop
  | idle (closed : a.connection.isOpen = false) : Polls a clock gone [] (a, .ready none)
  | ended {log : List Entry} {next : Attempt} (running : a.connection.isOpen = true)
      (takes : Takes clock eventsPerPoll a log (next, .ended)) :
      Polls a clock gone (.dealing .poll :: log ++ next.finish.log) next.finish.value
  | onward {log : List Entry} {mid : Attempt} {intake : Intake} {chores : List Input}
      {crash : Option String} {outcome : Outcome} (running : a.connection.isOpen = true)
      (takes : Takes clock eventsPerPoll a log (mid, intake)) (goes : intake ≠ .ended)
      (chore : Chores mid.connection.session clock gone chores crash)
      (flag : Goes (intake == .interrupted) (mid.listen chores).value crash outcome) :
      Polls a clock gone (.dealing .poll :: log ++ (mid.listen chores).log)
        ((mid.listen chores).value, outcome)

theorem poll_polls (a : Attempt) (clock : Clock) (gone : Nat → Bool) :
    Polls a clock gone (a.poll clock gone).log (a.poll clock gone).value := by
  cases ho : a.connection.isOpen with
  | false =>
      rw [poll_of_over ho]
      exact .idle ho
  | true =>
      have htakes := intake_takes clock eventsPerPoll a
      simp only [poll, ho, if_true, Logged.value_bind, Logged.log_bind, Logged.log_note]
      generalize intake clock eventsPerPoll a = t at htakes ⊢
      obtain ⟨⟨mid, intake⟩, log⟩ := t
      by_cases hend : intake = .ended
      · subst hend
        exact .ended ho htakes
      · obtain ⟨chores, hchore, hvalue, hlog⟩ := mid.progress_listens clock gone
        simp only [hend, if_false, Logged.value_bind, Logged.log_bind]
        generalize mid.progress clock gone = done at hchore hvalue hlog
        obtain ⟨⟨next, crash⟩, more⟩ := done
        obtain rfl : next = _ := hvalue
        obtain rfl : more = _ := hlog
        cases crash with
        | some text => simpa using .onward ho htakes hend hchore (.crashed text)
        | none => simpa using .onward ho htakes hend hchore .pending

theorem leftovers_notices (c : Connection) : Entry.NoticesOnly (c.leftovers.map .notice) := by
  intro a ha
  have ha : a ∈ c.leftovers := by simpa using ha
  obtain ⟨e, -, he⟩ := List.mem_flatMap.1 ha
  cases e with
  | dispatch envelope => rcases List.mem_pair.1 he with rfl | rfl <;> simp [Action.isNotice]
  | _ => simp [Event.refusal] at he

theorem Chores.input_of {s : Session} {chores : List Input} {crash : Option String}
    (h : Chores s clock gone chores crash) :
    ∀ i ∈ chores, i = .keepTime clock ∨ i = .write clock gone ∨ i = .publish := by
  cases h <;> simp

namespace Polls

variable {r : Attempt × Outcome}

theorem of_over (h : Polls a clock gone log r) (ho : a.connection.isOpen = false) : r.1 = a ∧ log = [] := by
  cases h with
  | idle closed => exact ⟨rfl, rfl⟩
  | ended running | onward running => simp [ho] at running

theorem input_of (h : Polls a clock gone log r) :
    ∀ i ∈ Entry.inputs log, (∃ (b : Attempt) (e : Event), i = b.input clock e)
      ∨ i = .keepTime clock ∨ i = .write clock gone ∨ i = .publish := by
  cases h with
  | idle closed => simp
  | ended running takes => simpa [finish] using fun i hi => .inl (takes.input_of i hi)
  | @onward log mid intake chores crash outcome running takes goes chore flag =>
      intro i hi
      rw [List.cons_append, Entry.inputs_dealing, Entry.inputs_append, (listen_works mid chores).heard,
        List.mem_append] at hi
      exact hi.imp (takes.input_of i) (chore.input_of i)

theorem hears (h : Polls a clock gone log r) : Hears a (Entry.inputs log) log r.1 := by
  cases h with
  | idle closed => exact .refl a
  | @ended log next running takes =>
      have hleftovers : Entry.NoticesOnly next.finish.log := by
        simpa [finish] using leftovers_notices next.connection
      have hended : Hears a _ _ next.finish.value.1 :=
        (takes.hears.dealing .poll).aside rfl rfl rfl rfl (by simp [finish]) (by simp [finish]) hleftovers
      exact hended.heard ▸ hended
  | @onward log mid intake chores crash outcome running takes goes chore flag =>
      have hworked := (takes.hears.dealing .poll).trans (listen_works mid chores).toHears
      exact hworked.heard ▸ hworked

end Polls

end Attempt

end HttpSession
