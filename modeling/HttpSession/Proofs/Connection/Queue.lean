import HttpSession.Proofs.Connection.Mailbox
import HttpSession.Proofs.Connection.Poll

namespace HttpSession

def Connection.letters (c : Connection) : List Event := c.queue.map Event.bare

def Input.event? : Input → Option Event
  | .activate => some .active
  | .negotiated _ _ protocol => some (.negotiated protocol)
  | .negotiationFailed fault => some (.negotiationFailed fault)
  | .dispatch _ options request caller => some (.dispatch ⟨options, request, caller⟩)
  | .response stream part => some (.response stream part)
  | .message m => some (.message m)
  | .markFallback => some .upgradeFailed
  | .transportError e => some (.error e)
  | .closed _ => some .closed
  | _ => none

def eventsOf (inputs : List Input) : List Event := (inputs.filterMap Input.event?).map Event.bare

@[simp] theorem eventsOf_nil : eventsOf [] = [] := rfl

@[simp] theorem eventsOf_append (xs ys : List Input) : eventsOf (xs ++ ys) = eventsOf xs ++ eventsOf ys := by
  simp [eventsOf]

namespace Attempt

variable {a b : Attempt} {clock : Clock} {gone : Nat → Bool} {n : Nat} {inputs : List Input}
  {log : List Entry} {m : Mailbox} {e : Event} {rest : List Event}

theorem input_event (a : Attempt) (clock : Clock) (e : Event) : (a.input clock e).event? = some e := by
  cases e <;> rfl

theorem Chores.eventless {s : Session} {chores : List Input} {crash : Option String}
    (h : Chores s clock gone chores crash) : eventsOf chores = [] := by
  cases h <;> rfl

theorem Works.letters (h : Works a inputs log b) :
    ∃ es : List Event, Entry.dealings log = es.map .post
      ∧ b.connection.letters = a.connection.letters ++ es.map Event.bare := by
  obtain ⟨es, hdealings, hqueue, -⟩ := h.posts
  exact ⟨es, hdealings, by rw [Connection.letters, hqueue, List.map_append]; rfl⟩

theorem letters_pop (first : a.connection.queue = e :: rest) :
    a.connection.letters = e.bare :: (a.pop rest).connection.letters := by
  rw [Connection.letters, first]
  rfl

theorem Works.deals (h : Works a inputs log b) (hm : m.contents = a.connection.letters) (hu : m.Unused) :
    ∃ next, m.Dealt (Entry.dealings log) next ∧ next.contents = b.connection.letters
      ∧ next.polls = m.polls ∧ next.Unused := by
  obtain ⟨es, hdealings, hletters⟩ := h.letters
  refine ⟨m.post (es.map Event.bare), hdealings ▸ m.post_dealt es, ?_, rfl, hu.post _⟩
  rw [Mailbox.post_contents, hm, hletters]

theorem take_deals (first : a.connection.queue = e :: rest) (h : Works (a.pop rest) inputs log b)
    (hm : m.contents = a.connection.letters) (hu : m.Unused) :
    ∃ next, m.Dealt (.take e :: Entry.dealings log) next ∧ next.contents = b.connection.letters
      ∧ next.polls = m.polls ∧ next.Unused := by
  have hhead : m.contents = e.bare :: (a.pop rest).connection.letters := hm.trans (letters_pop first)
  obtain ⟨next, hdealt, hnext⟩ := h.deals
    (m := { m with contents := (a.pop rest).connection.letters }) rfl ⟨hu.waiting, hu.woken⟩
  exact ⟨next, .cons (.take hhead) hdealt, hnext⟩

namespace Takes

variable {r : Attempt × Intake}

theorem deals (h : Takes clock n a log r) (hm : m.contents = a.connection.letters) (hu : m.Unused) :
    ∃ next, m.Dealt (Entry.dealings log) next ∧ next.contents = r.1.connection.letters
      ∧ next.polls = m.polls
      ∧ (r.2 = .interrupted → m.polls ∈ next.woken)
      ∧ (r.2 = .emptied → next.contents = [] ∧ next.waiting = some m.polls ∧ m.polls ∉ next.woken) := by
  induction h generalizing m with
  | interrupted a => exact ⟨_, .cons (.wake m) (.nil _), hm, rfl, by simp, by simp⟩
  | emptied empty reachable =>
      have hnone : m.contents = [] := by rw [hm, Connection.letters, empty, List.map_nil]
      exact ⟨_, .cons (.rest hnone) (.nil _), hm, rfl, by simp, fun _ => ⟨hnone, rfl, hu.woken⟩⟩
  | @deserted n a empty unreachable =>
      obtain ⟨next, hdealt, hcontents, hpolls, -⟩ := (hear_works a (.closed a.promise)).deals hm hu
      exact ⟨next, hdealt, hcontents, hpolls, by simp, by simp⟩
  | @closed n a rest first =>
      obtain ⟨next, hdealt, hcontents, hpolls, -⟩ :=
        take_deals first (hear_works (a.pop rest) (.closed a.promise)) hm hu
      exact ⟨next, hdealt, hcontents, hpolls, by simp, by simp⟩
  | @event n a e rest log r first other later ih =>
      obtain ⟨mid, hdealt, hcontents, hpolls, hunused⟩ :=
        take_deals first ((a.pop rest).handle_works clock e) hm hu
      obtain ⟨next, hrest, hlast, hsame, hwoken, hwaits⟩ := ih hcontents hunused
      rw [hpolls] at hsame hwoken hwaits
      refine ⟨next, ?_, hlast, hsame, hwoken, hwaits⟩
      simpa using hdealt.append hrest

theorem unshut (h : Takes clock n a log r) : .shut ∉ Entry.dealings log := by
  have hposts {a b : Attempt} {inputs : List Input} {log : List Entry} (h : Works a inputs log b) :
      .shut ∉ Entry.dealings log := by
    obtain ⟨es, hdealings, -⟩ := h.posts
    simp [hdealings]
  induction h with
  | interrupted | emptied => simp
  | @deserted n a => exact hposts (hear_works a (.closed a.promise))
  | @closed n a rest => simpa [close] using hposts (hear_works (a.pop rest) (.closed (a.pop rest).promise))
  | @event n a e rest log r first other later ih =>
      simpa using ⟨hposts ((a.pop rest).handle_works clock e), ih⟩

theorem conserves (h : Takes clock n a log r) :
    a.connection.letters ++ Dealing.posted (Entry.dealings log)
      = Dealing.taken (Entry.dealings log) ++ r.1.connection.letters := by
  obtain ⟨next, hdealt, hcontents, -⟩ :=
    h.deals (m := { Mailbox.fresh with contents := a.connection.letters }) rfl
      ⟨by simp [Mailbox.fresh], by simp [Mailbox.fresh]⟩
  rw [← hcontents]
  exact hdealt.conserves h.unshut

theorem taken_of_works {inputs : List Input} (h : Works a inputs log b) :
    Dealing.taken (Entry.dealings log) = [] := by
  obtain ⟨es, hdealings, -⟩ := h.posts
  rw [hdealings, Dealing.taken_posts]

theorem taken_event {later : List Entry} {inputs : List Input} (h : Works (a.pop rest) inputs log b) :
    Dealing.taken (Entry.dealings (.dealing (.take e) :: log ++ later))
      = e.bare :: Dealing.taken (Entry.dealings later) := by
  simp [taken_of_works h]

theorem closed_last (h : Takes clock n a log r) :
    .closed ∉ (Dealing.taken (Entry.dealings log)).dropLast
      ∧ (r.2 ≠ .ended → .closed ∉ Dealing.taken (Entry.dealings log)) := by
  induction h with
  | interrupted | emptied => simp
  | @deserted n a => simp [close, taken_of_works (hear_works a (.closed a.promise))]
  | @closed n a rest => simp [close, taken_of_works (hear_works (a.pop rest) (.closed _))]
  | @event n a e rest log r first other later ih =>
      have hne : Event.closed ≠ e.bare := fun hc => other (Event.bare_eq_closed.1 hc.symm)
      rw [taken_event ((a.pop rest).handle_works clock e)]
      refine ⟨fun hmem => ?_, fun hgoes hmem => (List.mem_cons.1 hmem).elim hne (ih.2 hgoes)⟩
      cases hlog : Dealing.taken (Entry.dealings log) with
      | nil => simp [hlog] at hmem
      | cons x xs =>
          rw [hlog, List.dropLast_cons_cons] at hmem
          rw [hlog] at ih
          exact (List.mem_cons.1 hmem).elim hne ih.1

theorem closed_of_ended (h : Takes clock n a log r) (reachable : a.connection.isReachable = true)
    (hr : r.2 = .ended) : .closed ∈ Dealing.taken (Entry.dealings log) := by
  induction h with
  | interrupted | emptied => simp at hr
  | deserted empty unreachable => simp [reachable] at unreachable
  | closed => simp [Event.bare]
  | @event n a e rest log r first other later ih =>
      have hworks := (a.pop rest).handle_works clock e
      rw [taken_event hworks]
      exact List.mem_cons_of_mem _ (ih (hworks.reach reachable) hr)

theorem events (h : Takes clock n a log r) :
    ∃ ends, eventsOf (Entry.inputs log) = Dealing.taken (Entry.dealings log) ++ ends
      ∧ ends ⊆ [.closed] ∧ (r.2 ≠ .ended → ends = []) := by
  induction h with
  | interrupted | emptied => exact ⟨[], by simp⟩
  | @deserted n a =>
      have hworks := hear_works a (.closed a.promise)
      refine ⟨[.closed], ?_, by simp⟩
      rw [close, hworks.heard, taken_of_works hworks]
      rfl
  | @closed n a rest =>
      have hworks := hear_works (a.pop rest) (.closed (a.pop rest).promise)
      refine ⟨[], ?_, by simp⟩
      rw [close, Entry.inputs_dealing, hworks.heard, Entry.dealings_dealing, Dealing.taken_take,
        taken_of_works hworks]
      rfl
  | @event n a e rest log r first other later ih =>
      obtain ⟨ends, hheard, hends, hgoes⟩ := ih
      have hworks := (a.pop rest).handle_works clock e
      refine ⟨ends, ?_, hends, hgoes⟩
      rw [taken_event hworks]
      simp only [eventsOf] at hheard ⊢
      simp [hworks.heard, input_event, hheard]

theorem backlog (h : Takes clock n a log r) {first behind : List Event}
    (hq : a.connection.letters = first ++ behind) (hc : .closed ∉ first) :
    first <+: Dealing.taken (Entry.dealings log)
      ∨ r.2 = .interrupted ∧ n < first.length ∧ Dealing.taken (Entry.dealings log) = first.take n
        ∧ ∃ more, r.1.connection.letters = first.drop n ++ more := by
  induction h generalizing first behind with
  | interrupted a =>
      cases first with
      | nil => exact .inl List.nil_prefix
      | cons e first => exact .inr ⟨rfl, by simp, by simp, behind, hq⟩
  | emptied empty | deserted empty =>
      rw [Connection.letters, empty] at hq
      obtain ⟨rfl, -⟩ := List.append_eq_nil_iff.1 hq.symm
      exact .inl List.nil_prefix
  | closed head =>
      rw [letters_pop head] at hq
      cases first with
      | nil => exact .inl List.nil_prefix
      | cons e first =>
          obtain ⟨rfl, -⟩ := List.cons.inj hq
          simp [Event.bare] at hc
  | @event n a e rest log r head other later ih =>
      rw [letters_pop head] at hq
      cases first with
      | nil => exact .inl List.nil_prefix
      | cons x first =>
          obtain rfl : e.bare = x := (List.cons.inj hq).1
          have hrest : (a.pop rest).connection.letters = first ++ behind := (List.cons.inj hq).2
          have hworks := (a.pop rest).handle_works clock e
          obtain ⟨es, -, hletters⟩ := hworks.letters
          rw [hrest, List.append_assoc] at hletters
          rw [taken_event hworks, List.length_cons, List.take_succ_cons, List.drop_succ_cons]
          rcases ih hletters (fun hmem => hc (List.mem_cons_of_mem _ hmem)) with
            hall | ⟨hstop, hlt, htaken, hleft⟩
          · exact .inl ((List.prefix_cons_inj _).2 hall)
          · exact .inr ⟨hstop, Nat.succ_lt_succ hlt, by rw [htaken], hleft⟩

end Takes

structure Reads (a : Attempt) (m : Mailbox) : Prop where
  contents : m.contents = a.connection.letters
  sound : m.Sound
  alert : a.connection.isOpen = true → m.polls = 0 ∨ m.Alert

namespace Polls

variable {r : Attempt × Outcome}

theorem dealings_ended (next : Attempt) :
    Entry.dealings (.dealing .poll :: log ++ next.finish.log) = .poll :: Entry.dealings log ++ [.shut] := by
  simp [finish]

theorem reads (h : Polls a clock gone log r) (hm : a.Reads m) :
    ∃ next, m.Dealt (Entry.dealings log) next ∧ r.1.Reads next
      ∧ ∀ woken, r.2 = .pending woken →
        (woken = true ↔ next.polls ∈ next.woken) ∧ (next.contents ≠ [] → next.polls ∈ next.woken) := by
  cases h with
  | idle closed => exact ⟨m, .nil m, hm, by simp⟩
  | @ended log next running takes =>
      obtain ⟨mid, hdealt, -⟩ := takes.deals (m := m.polled) hm.contents hm.sound.unused
      have hall : m.Dealt (.poll :: Entry.dealings log ++ [.shut]) { mid with contents := [] } :=
        .cons (.poll m) (hdealt.append (.cons (.shut mid) (.nil _)))
      refine ⟨_, dealings_ended next ▸ hall, ⟨rfl, hall.sound hm.sound, ?_⟩, ?_⟩ <;>
        simp [finish, Connection.isOpen]
  | @onward log t intake chores crash outcome running takes goes chore flag =>
      obtain ⟨mid, hdealt, hcontents, hpolls, hwoken, hwaits⟩ :=
        takes.deals (m := m.polled) hm.contents hm.sound.unused
      obtain ⟨es, hposted, hletters⟩ := (listen_works t chores).letters
      have hall : m.Dealt (.poll :: Entry.dealings log ++ es.map .post) (mid.post (es.map Event.bare)) :=
        .cons (.poll m) (hdealt.append (mid.post_dealt _))
      have hleft : (mid.post (es.map Event.bare)).contents = (t.listen chores).value.connection.letters := by
        rw [Mailbox.post_contents, hcontents, hletters]
      rw [← hpolls] at hwoken hwaits
      refine ⟨mid.post (es.map Event.bare), by simpa [hposted] using hall, ⟨hleft, hall.sound hm.sound,
        fun _ => .inr (Mailbox.Alert.post ?_ _)⟩, fun woken hp => ?_⟩
      · cases intake with
        | ended => exact absurd rfl goes
        | interrupted => exact .inl (hwoken rfl)
        | emptied =>
            obtain ⟨hnone, hwaiting, -⟩ := hwaits rfl
            exact .inr ⟨hnone, hwaiting⟩
      · cases flag with
        | crashed text => simp at hp
        | pending =>
            obtain rfl := Outcome.pending.inj hp
            rw [hleft]
            cases intake with
            | ended => exact absurd rfl goes
            | interrupted =>
                have hmem := Mailbox.woken_subset_post mid (es.map Event.bare) (hwoken rfl)
                exact ⟨by simpa using hmem, fun _ => hmem⟩
            | emptied =>
                obtain ⟨hnone, hwaiting, hunused⟩ := hwaits rfl
                have hes : (t.listen chores).value.connection.letters = es.map Event.bare := by
                  rw [hletters, ← hcontents, hnone, List.nil_append]
                rw [Mailbox.mem_woken_post hwaiting hunused, hes]
                refine ⟨?_, id⟩
                rw [← hes]
                simp [Connection.letters]

theorem order (h : Polls a clock gone log r) :
    (r.1.connection.isOpen = true →
        a.connection.letters ++ Dealing.posted (Entry.dealings log)
          = Dealing.taken (Entry.dealings log) ++ r.1.connection.letters)
      ∧ Dealing.taken (Entry.dealings log)
        <+: a.connection.letters ++ Dealing.posted (Entry.dealings log)
      ∧ .closed ∉ (Dealing.taken (Entry.dealings log)).dropLast
      ∧ (.closed ∈ Dealing.taken (Entry.dealings log) → r.1.connection.isOpen = false) := by
  cases h with
  | idle closed => exact ⟨fun _ => by simp, List.nil_prefix, by simp, by simp⟩
  | @ended log next running takes =>
      have hposted : Dealing.posted (.poll :: Entry.dealings log ++ [.shut])
          = Dealing.posted (Entry.dealings log) := by simp
      have htaken : Dealing.taken (.poll :: Entry.dealings log ++ [.shut])
          = Dealing.taken (Entry.dealings log) := by simp
      rw [dealings_ended, hposted, htaken]
      exact ⟨by simp [finish, Connection.isOpen], ⟨_, takes.conserves.symm⟩, takes.closed_last.1, fun _ => rfl⟩
  | @onward log t intake chores crash outcome running takes goes chore flag =>
      obtain ⟨es, hdealings, hletters⟩ := (listen_works t chores).letters
      have hposted : Dealing.posted (Entry.dealings (.dealing .poll :: log ++ (t.listen chores).log))
          = Dealing.posted (Entry.dealings log) ++ es.map Event.bare := by simp [hdealings]
      have htaken : Dealing.taken (Entry.dealings (.dealing .poll :: log ++ (t.listen chores).log))
          = Dealing.taken (Entry.dealings log) := by simp [hdealings]
      have hall : a.connection.letters ++ (Dealing.posted (Entry.dealings log) ++ es.map Event.bare)
          = Dealing.taken (Entry.dealings log) ++ (t.listen chores).value.connection.letters := by
        rw [← List.append_assoc, takes.conserves, List.append_assoc, hletters]
      rw [hposted, htaken]
      refine ⟨fun _ => hall, ⟨_, hall.symm⟩, takes.closed_last.1, fun hc => ?_⟩
      exact absurd hc (takes.closed_last.2 goes)

theorem backlog (h : Polls a clock gone log r) (ho : a.connection.isOpen = true) {first behind : List Event}
    (hq : a.connection.letters = first ++ behind) (hc : .closed ∉ first) :
    first <+: Dealing.taken (Entry.dealings log)
      ∨ eventsPerPoll < first.length
        ∧ Dealing.taken (Entry.dealings log) = first.take eventsPerPoll
        ∧ (∀ fault, r.2 ≠ .ready fault) ∧ r.1.connection.isOpen = true
        ∧ ∃ more, r.1.connection.letters = first.drop eventsPerPoll ++ more := by
  cases h with
  | idle closed => simp [ho] at closed
  | @ended log next running takes =>
      rcases takes.backlog hq hc with hall | ⟨hstop, -⟩
      · rw [dealings_ended]
        exact .inl (by simpa using hall)
      · simp at hstop
  | @onward log t intake chores crash outcome running takes goes chore flag =>
      have hworks := listen_works t chores
      obtain ⟨es, hdealings, hletters⟩ := hworks.letters
      rcases takes.backlog hq hc with hall | ⟨hstop, hlt, htaken, more, hleft⟩
      · exact .inl (by simpa [hdealings] using hall)
      · refine .inr ⟨hlt, by simpa [hdealings] using htaken, by cases flag <;> simp, ?_,
          more ++ es.map Event.bare, ?_⟩
        · rwa [Connection.isOpen, hworks.life, takes.life]
        · rw [hletters, hleft, List.append_assoc]

theorem closed_of_ready (h : Polls a clock gone log r) (ho : a.connection.isOpen = true)
    (reachable : a.connection.isReachable = true) {fault : Option Fault} (hr : r.2 = .ready fault) :
    .closed ∈ Dealing.taken (Entry.dealings log) := by
  cases h with
  | idle closed => simp [ho] at closed
  | ended running takes => simpa [finish] using takes.closed_of_ended reachable rfl
  | onward running takes goes chore flag => cases flag <;> simp at hr

theorem events (h : Polls a clock gone log r) :
    ∃ ends, eventsOf (Entry.inputs log) = Dealing.taken (Entry.dealings log) ++ ends
      ∧ ends ⊆ [.closed] ∧ ((∀ fault, r.2 ≠ .ready fault) → ends = []) := by
  cases h with
  | idle closed => exact ⟨[], by simp⟩
  | ended running takes =>
      obtain ⟨ends, hheard, hends, -⟩ := takes.events
      exact ⟨ends, by simpa [finish] using hheard, hends, fun h => absurd rfl (h _)⟩
  | @onward log t intake chores crash outcome running takes goes chore flag =>
      obtain ⟨ends, hheard, hends, hgoes⟩ := takes.events
      have hworks := listen_works t chores
      refine ⟨ends, ?_, hends, fun _ => hgoes goes⟩
      simpa [hworks.heard, chore.eventless, Takes.taken_of_works hworks] using hheard

theorem works (h : Polls a clock gone log r) {woken : Bool} (hr : r.2 = .pending woken) :
    ∃ inputs, Entry.inputs log = inputs ++ [.keepTime clock, .write clock gone, .publish] := by
  cases h with
  | idle closed => simp at hr
  | ended running takes => simp [finish] at hr
  | @onward log t intake chores crash outcome running takes goes chore flag =>
      cases flag with
      | crashed text => simp at hr
      | pending =>
          cases chore with
          | published => exact ⟨Entry.inputs log, by simp [(listen_works t _).heard]⟩

end Polls

end Attempt

end HttpSession
