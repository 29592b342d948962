import HttpSession.Proofs.Connection.Run

namespace HttpSession

open Happening (ofActions)

theorem Event.refusal_paid (e : Event) : e.refusal.filterMap Action.pays? = e.debts := by
  cases e <;> rfl

theorem Event.feed_debts (e : Event) (source : Nat) (frames : List Frame) (ended : Option Bool) :
    (e.feed source frames ended).debts = e.debts := by
  cases e <;> rfl

namespace Connection

variable {c : Connection}

def debts (c : Connection) : List Debt := c.queue.flatMap Event.debts ++ c.session.debts

theorem leftovers_paid (c : Connection) :
    c.leftovers.filterMap Action.pays? = c.queue.flatMap Event.debts := by
  simp [leftovers, List.filterMap_flatMap, Event.refusal_paid]

end Connection

namespace Attempt

def debts (a : Attempt) : List Debt := a.connection.debts

structure Keeps (owed : List Debt) (a : Attempt) (log : List Entry) (b : Attempt) : Prop where
  sound : b.connection.session.IsSound
  settles : Accounts (owed ++ a.debts) (Entry.actions log) b.debts

variable {a b c : Attempt} {owed : List Debt} {log xs ys : List Entry} {clock : Clock}
  {gone : Nat → Bool} {n : Nat}

namespace Keeps

theorem refl (hs : a.connection.session.IsSound) : Keeps [] a [] a := ⟨hs, .refl⟩

theorem trans (hx : Keeps owed a xs b) (hy : Keeps [] b ys c) : Keeps owed a (xs ++ ys) c where
  sound := hy.sound
  settles := by
    rw [Entry.actions_append]
    exact hx.settles.trans hy.settles

end Keeps

theorem hear_keeps (hs : a.connection.session.IsSound) (i : Input) :
    Keeps i.debts a (a.hear i).log (a.hear i).value := by
  have hworks := hear_works a i
  obtain ⟨es, -, hqueue, hclosed⟩ := hworks.posts
  obtain ⟨h, hstands⟩ := hs.stands
  have hsession : (a.hear i).value.connection.session
      = { (a.connection.session.respond i).value with
          channel := (a.connection.session.step i).value.channel } := hworks.session
  have hnone : es.flatMap Event.debts = [] :=
    List.flatMap_eq_nil_iff.2 fun e he => by rw [hclosed e he]; rfl
  have hdebts : (a.hear i).value.debts
      = a.connection.queue.flatMap Event.debts ++ (a.connection.session.respond i).value.debts := by
    simp only [debts, Connection.debts, hqueue, hsession, List.flatMap_append, hnone, List.append_nil]
    rfl
  refine ⟨?_, ?_⟩
  · rw [hsession]
    exact (hs.respond i).ofChannel _
  · have hsettles := (hstands.settles i).beside (a.connection.queue.flatMap Event.debts)
    rw [hdebts, hear_actions]
    exact hsettles.perm_owed (List.perm_append_comm_assoc _ _ _)

theorem judged_keeps (hs : a.connection.session.IsSound)
    {f : Session → Traced (Session × Option Fault)} {i : Input}
    (hf : ∀ s : Session, s.respond i = f s >>= fun x => pure x.1) :
    Keeps i.debts a (a.judged i f).log (a.judged i f).value := by
  obtain ⟨⟨fault, hvalue⟩, hlog⟩ := a.judged_eq hf
  obtain ⟨hsound, hsettles⟩ := hear_keeps hs i
  rw [hvalue, hlog]
  exact ⟨hsound, hsettles⟩

theorem dispatch_keeps (hs : a.connection.session.IsSound) (clock : Clock) (envelope : Envelope) :
    Keeps (Event.dispatch envelope).debts a (a.handle clock (.dispatch envelope)).log
      (a.handle clock (.dispatch envelope)).value := by
  have hheard := hear_keeps hs (.dispatch clock envelope.options envelope.request envelope.sink)
  rw [dispatch_eq]
  refine ⟨hheard.sound, ?_⟩
  rw [Entry.actions_append]
  exact ((hheard.settles.beside [.word envelope.sink]).trans (.accept _ _)).perm_owed
    (List.Perm.swap _ _ _)

theorem handle_keeps (hs : a.connection.session.IsSound) (clock : Clock) (e : Event) :
    Keeps e.debts a (a.handle clock e).log (a.handle clock e).value := by
  cases e with
  | active => exact hear_keeps hs .activate
  | negotiated protocol => exact hear_keeps hs (.negotiated a.promise a.connection.isReachable protocol)
  | negotiationFailed fault => exact hear_keeps hs (.negotiationFailed fault)
  | dispatch envelope => exact dispatch_keeps hs clock envelope
  | response stream part => exact judged_keeps hs (i := .response stream part) fun _ => rfl
  | message m => exact judged_keeps hs (i := .message m) fun _ => rfl
  | upgradeFailed => exact hear_keeps hs .markFallback
  | error e => exact judged_keeps hs (i := .transportError e) fun _ => rfl
  | closed => exact hear_keeps hs (.closed a.promise)

theorem listen_keeps (hs : a.connection.session.IsSound) {inputs : List Input}
    (h : ∀ i ∈ inputs, i.debts = []) : Keeps [] a (a.listen inputs).log (a.listen inputs).value := by
  induction inputs generalizing a with
  | nil => exact .refl hs
  | cons i rest ih =>
      have hfirst := hear_keeps hs i
      rw [h i List.mem_cons_self] at hfirst
      exact hfirst.trans (ih hfirst.sound fun j hj => h j (List.mem_cons_of_mem _ hj))

theorem Chores.debts {s : Session} {chores : List Input} {crash : Option String}
    (h : Chores s clock gone chores crash) : ∀ i ∈ chores, i.debts = [] := by
  cases h <;> simp [Input.debts]

theorem close_ends (hs : a.connection.session.IsSound) :
    a.close.value.connection.session.phase = .closed := by
  have hsession := (hear_works a (.closed a.promise)).session
  rw [close, hsession]
  exact a.connection.session.onTransportClosed_ends hs.ended a.promise

theorem debts_pop {e : Event} {rest : List Event} (first : a.connection.queue = e :: rest) :
    a.debts = e.debts ++ (a.pop rest).debts := by
  simp [debts, Connection.debts, pop, first]

theorem Takes.keeps {r : Attempt × Intake} (h : Takes clock n a log r) (hs : a.connection.session.IsSound) :
    Keeps [] a log r.1 ∧ (r.2 = .ended → r.1.connection.session.phase = .closed) := by
  induction h with
  | interrupted a => exact ⟨⟨hs, .refl⟩, by simp⟩
  | emptied empty reachable => exact ⟨⟨hs, .refl⟩, by simp⟩
  | @deserted n a empty unreachable => exact ⟨hear_keeps hs (.closed a.promise), fun _ => close_ends hs⟩
  | @closed n a rest first =>
      have hclose := hear_keeps (a := a.pop rest) hs (.closed a.promise)
      refine ⟨⟨hclose.sound, ?_⟩, fun _ => close_ends (a := a.pop rest) hs⟩
      rw [debts_pop first]
      exact hclose.settles
  | @event n a e rest log r first other later ih =>
      have hhandle := handle_keeps (a := a.pop rest) hs clock e
      obtain ⟨hrest, hended⟩ := ih hhandle.sound
      refine ⟨⟨hrest.sound, ?_⟩, hended⟩
      have hboth := hhandle.settles.trans hrest.settles
      rw [debts_pop first]
      simpa using hboth

structure IsSound (a : Attempt) : Prop where
  session : a.connection.session.IsSound
  finished : a.connection.isOpen = false →
    a.connection.queue = [] ∧ a.connection.session.phase = .closed

theorem IsSound.debts_eq_nil (ha : a.IsSound) (ho : a.connection.isOpen = false) : a.debts = [] := by
  obtain ⟨hqueue, hphase⟩ := ha.finished ho
  simp [debts, Connection.debts, hqueue, Session.debts_of_closed hphase]

theorem leftovers_settle (hp : a.connection.session.phase = .closed) :
    Accounts a.debts a.connection.leftovers [] := by
  refine .of_paid ?_
  rw [a.connection.leftovers_paid, debts, Connection.debts, Session.debts_of_closed hp,
    List.append_nil]

theorem Polls.settles {r : Attempt × Outcome} (h : Polls a clock gone log r) (ha : a.IsSound) :
    r.1.IsSound ∧ Accounts a.debts (Entry.actions log) r.1.debts
      ∧ ∀ fault, r.2 = .ready fault → r.1.connection.isOpen = false := by
  cases h with
  | idle closed => exact ⟨ha, .refl, fun _ _ => closed⟩
  | @ended log next running takes =>
      obtain ⟨hkeeps, hended⟩ := takes.keeps ha.session
      have hphase : next.connection.session.phase = .closed := hended rfl
      have hover : next.finish.value.1.IsSound := ⟨hkeeps.sound, fun _ => ⟨rfl, hphase⟩⟩
      refine ⟨hover, ?_, fun _ _ => rfl⟩
      rw [hover.debts_eq_nil rfl]
      simpa [finish] using hkeeps.settles.trans (leftovers_settle hphase)
  | @onward log mid intake chores crash outcome running takes goes chore flag =>
      obtain ⟨hkeeps, -⟩ := takes.keeps ha.session
      have hworked := listen_keeps hkeeps.sound chore.debts
      have hlife : (mid.listen chores).value.connection.life = a.connection.life :=
        (listen_works mid chores).life.trans takes.life
      have hopen : (mid.listen chores).value.connection.isOpen = true := by
        simpa [Connection.isOpen, hlife] using running
      refine ⟨⟨hworked.sound, fun h => by simp [hopen] at h⟩, ?_, ?_⟩
      · simpa using hkeeps.settles.trans hworked.settles
      · cases flag <;> simp

end Attempt

end HttpSession
