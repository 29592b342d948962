import HttpSession.Connection.Poll
import HttpSession.Proofs.Connection.Promise
import HttpSession.Proofs.Session.Accounts

/-! What a connection logs is what its session makes of the inputs among it. -/

namespace HttpSession

open Happening (ofActions deeds)

namespace Action

def isDeed : Action → Bool
  | .answer _ _ | .accept _ _ => false
  | _ => true

def isNotice : Action → Bool
  | .accept _ _ => true
  | .answer _ (.failed fault) => fault == Fault.closedSession
  | _ => false

theorem isDeed_of_isNotice (a : Action) (h : a.isNotice = true) : a.isDeed = false := by
  cases a <;> simp_all [isDeed, isNotice]

end Action

namespace Entry

def happening? : Entry → Option Happening
  | .input i => some (.input i)
  | .action a => some (.action a)
  | _ => none

def happenings (log : List Entry) : List Happening := log.filterMap happening?

def NoticesOnly (log : List Entry) : Prop := ∀ a, .notice a ∈ log → a.isNotice = true

variable {xs ys log : List Entry} {actions : List Action} {es : List Event}

@[simp] theorem happenings_nil : happenings [] = [] := rfl

@[simp] theorem happenings_append : happenings (xs ++ ys) = happenings xs ++ happenings ys :=
  List.filterMap_append

@[simp] theorem happenings_input (i : Input) : happenings (.input i :: xs) = .input i :: happenings xs :=
  rfl

@[simp] theorem happenings_action (a : Action) :
    happenings (.action a :: xs) = .action a :: happenings xs := rfl

@[simp] theorem happenings_notice (a : Action) : happenings (.notice a :: xs) = happenings xs := rfl

@[simp] theorem happenings_dealing (d : Dealing) : happenings (.dealing d :: xs) = happenings xs := rfl

theorem happenings_actions : happenings (actions.map .action) = ofActions actions := by
  simp [happenings, ofActions, List.filterMap_map, Function.comp_def, happening?]

@[simp] theorem happenings_notices : happenings (actions.map .notice) = [] := by
  simp [happenings, List.filterMap_map, Function.comp_def, happening?]

@[simp] theorem inputs_notices : inputs (actions.map .notice) = [] := by
  simp [inputs, List.filterMap_map, Function.comp_def, input?]

@[simp] theorem actions_notices : Entry.actions (actions.map .notice) = actions := by
  simp [Entry.actions, List.filterMap_map, Function.comp_def, action?]

@[simp] theorem dealings_notices : dealings (actions.map .notice) = [] := by
  simp [dealings, List.filterMap_map, Function.comp_def, dealing?]

@[simp] theorem inputs_actions : inputs (actions.map .action) = [] := by
  simp [inputs, List.filterMap_map, Function.comp_def, input?]

@[simp] theorem actions_actions : Entry.actions (actions.map .action) = actions := by
  simp [Entry.actions, List.filterMap_map, Function.comp_def, action?]

@[simp] theorem dealings_actions : dealings (actions.map .action) = [] := by
  simp [dealings, List.filterMap_map, Function.comp_def, dealing?]

@[simp] theorem happenings_dealings {α : Type} {f : α → Dealing} {l : List α} :
    happenings (l.map fun x => .dealing (f x)) = [] := by
  simp [happenings, List.filterMap_map, Function.comp_def, happening?]

@[simp] theorem inputs_dealings {α : Type} {f : α → Dealing} {l : List α} :
    inputs (l.map fun x => .dealing (f x)) = [] := by
  simp [inputs, List.filterMap_map, Function.comp_def, input?]

@[simp] theorem actions_dealings {α : Type} {f : α → Dealing} {l : List α} :
    Entry.actions (l.map fun x => .dealing (f x)) = [] := by
  simp [Entry.actions, List.filterMap_map, Function.comp_def, action?]

@[simp] theorem dealings_dealings {α : Type} {f : α → Dealing} {l : List α} :
    dealings (l.map fun x => .dealing (f x)) = l.map f := by
  simp [dealings, List.filterMap_map, Function.comp_def, dealing?]

@[simp] theorem noticesOnly_nil : NoticesOnly [] := by simp [NoticesOnly]

@[simp] theorem noticesOnly_append : NoticesOnly (xs ++ ys) ↔ NoticesOnly xs ∧ NoticesOnly ys := by
  simp [NoticesOnly, or_imp, forall_and]

@[simp] theorem noticesOnly_input (i : Input) : NoticesOnly (.input i :: xs) ↔ NoticesOnly xs := by
  simp [NoticesOnly]

@[simp] theorem noticesOnly_action (a : Action) : NoticesOnly (.action a :: xs) ↔ NoticesOnly xs := by
  simp [NoticesOnly]

@[simp] theorem noticesOnly_notice (a : Action) :
    NoticesOnly (.notice a :: xs) ↔ a.isNotice = true ∧ NoticesOnly xs := by
  simp [NoticesOnly]

@[simp] theorem noticesOnly_dealing (d : Dealing) : NoticesOnly (.dealing d :: xs) ↔ NoticesOnly xs := by
  simp [NoticesOnly]

theorem filterMap_actions {β : Type} {f : Action → Option β} (h : NoticesOnly log)
    (hf : ∀ a, a.isNotice = true → f a = none) :
    (Entry.actions log).filterMap f = (deeds (happenings log)).filterMap f := by
  induction log with
  | nil => rfl
  | cons x rest ih =>
      cases x with
      | input | dealing => exact ih (by simpa using h)
      | action a =>
          have hrest := ih (by simpa using h)
          simp only [actions_action, happenings_action, deeds, List.filterMap_cons] at hrest ⊢
          rw [hrest]
          rfl
      | notice a =>
          obtain ⟨ha, hrest⟩ : a.isNotice = true ∧ NoticesOnly rest := by simpa using h
          rw [actions_notice, List.filterMap_cons_none (hf a ha)]
          exact ih hrest

theorem filter_actions {p : Action → Bool} (h : NoticesOnly log)
    (hp : ∀ a, a.isNotice = true → p a = false) :
    (Entry.actions log).filter p = (deeds (happenings log)).filter p := by
  rw [← List.filterMap_eq_filter]
  exact filterMap_actions h fun a ha => by simp [Option.guard, hp a ha]

theorem deeds_sublist (log : List Entry) : (deeds (happenings log)).Sublist (Entry.actions log) := by
  induction log with
  | nil => exact .refl _
  | cons x rest ih =>
      cases x with
      | input | dealing => exact ih
      | action a => exact ih.cons_cons a
      | notice a => exact ih.cons a

end Entry

theorem Promise.heard_undone {id : Nat} {actions : List Action}
    (h : actions.filter Action.isDeed = []) (p : Promise) : actions.foldl (hear id) p = p := by
  induction actions with
  | nil => rfl
  | cons x rest ih =>
      cases x with
      | answer | accept => exact ih (by simpa [Action.isDeed] using h)
      | _ => simp [Action.isDeed] at h

namespace Attempt

variable {a b c : Attempt} {inputs more : List Input} {actions : List Action} {log xs ys : List Entry}
  {clock : Clock} {gone : Nat → Bool}

/-- The session hears these inputs and nothing else, and the promise hears what comes of them. -/
structure Hears (a : Attempt) (inputs : List Input) (log : List Entry) (b : Attempt) : Prop where
  heard : Entry.inputs log = inputs
  session : b.connection.session = a.connection.session.after inputs
  happenings : Entry.happenings log = a.connection.session.history inputs
  notices : Entry.NoticesOnly log
  id : b.connection.id = a.connection.id
  place : b.connection.promise = a.connection.promise
  promise : b.promise = (Entry.actions log).foldl (Promise.hear a.connection.id) a.promise

namespace Hears

theorem refl (a : Attempt) : Hears a [] [] a := ⟨rfl, rfl, rfl, by simp, rfl, rfl, rfl⟩

theorem trans (hx : Hears a inputs xs b) (hy : Hears b more ys c) : Hears a (inputs ++ more) (xs ++ ys) c where
  heard := by rw [Entry.inputs_append, hx.heard, hy.heard]
  session := by rw [hy.session, hx.session, Session.after_append]
  happenings := by
    rw [Entry.happenings_append, hx.happenings, hy.happenings, hx.session, Session.history_append]
  notices := Entry.noticesOnly_append.2 ⟨hx.notices, hy.notices⟩
  id := hy.id.trans hx.id
  place := hy.place.trans hx.place
  promise := by rw [Entry.actions_append, List.foldl_append, hy.promise, hx.promise, hx.id]

theorem aside (h : Hears a inputs log b) (hs : c.connection.session = b.connection.session)
    (hid : c.connection.id = b.connection.id) (hplace : c.connection.promise = b.connection.promise)
    (hp : c.promise = b.promise) (hmore : Entry.inputs xs = []) (hnone : Entry.happenings xs = [])
    (hnotices : Entry.NoticesOnly xs) : Hears a inputs (log ++ xs) c where
  heard := by rw [Entry.inputs_append, h.heard, hmore, List.append_nil]
  session := hs.trans h.session
  happenings := by rw [Entry.happenings_append, h.happenings, hnone, List.append_nil]
  notices := Entry.noticesOnly_append.2 ⟨h.notices, hnotices⟩
  id := hid.trans h.id
  place := hplace.trans h.place
  promise := by
    have hundone := Entry.filter_actions hnotices Action.isDeed_of_isNotice
    rw [hnone] at hundone
    rw [hp, h.promise, Entry.actions_append, List.foldl_append, Promise.heard_undone hundone]

end Hears

structure Works (a : Attempt) (inputs : List Input) (log : List Entry) (b : Attempt) : Prop
    extends Hears a inputs log b where
  posts : ∃ es, Entry.dealings log = es.map .post ∧ b.connection.queue = a.connection.queue ++ es
    ∧ ∀ e ∈ es, e = .closed
  life : b.connection.life = a.connection.life
  reach : a.connection.isReachable = true → b.connection.isReachable = true

namespace Works

theorem refl (a : Attempt) : Works a [] [] a :=
  ⟨.refl a, ⟨[], rfl, (List.append_nil _).symm, by simp⟩, rfl, id⟩

theorem trans (hx : Works a inputs xs b) (hy : Works b more ys c) :
    Works a (inputs ++ more) (xs ++ ys) c where
  toHears := hx.toHears.trans hy.toHears
  posts := by
    obtain ⟨first, hfirst, hmid, hclosed⟩ := hx.posts
    obtain ⟨rest, hrest, hlast, hclosed'⟩ := hy.posts
    refine ⟨first ++ rest, by simp [hfirst, hrest], by rw [hlast, hmid, List.append_assoc], ?_⟩
    simp only [List.mem_append]
    exact fun e he => he.elim (hclosed e) (hclosed' e)
  life := hy.life.trans hx.life
  reach := hy.reach ∘ hx.reach

end Works

structure Reacts (a : Attempt) (actions : List Action) (log : List Entry) (b : Attempt) : Prop where
  happenings : Entry.happenings log = ofActions actions
  done : Entry.actions log = actions
  unheard : Entry.inputs log = []
  notices : Entry.NoticesOnly log
  posts : ∃ es, Entry.dealings log = es.map .post ∧ b.connection.queue = a.connection.queue ++ es
    ∧ ∀ e ∈ es, e = .closed
  session : b.connection.session
    = { a.connection.session with channel := a.connection.session.channel.after actions }
  id : b.connection.id = a.connection.id
  place : b.connection.promise = a.connection.promise
  promise : b.promise = actions.foldl (Promise.hear a.connection.id) a.promise
  life : b.connection.life = a.connection.life
  reach : a.connection.isReachable = true → b.connection.isReachable = true

theorem react_reacts (a : Attempt) (x : Action) : Reacts a [x] (a.react x).log (a.react x).value := by
  have hnone : ∃ es, ([] : List Dealing) = es.map .post
      ∧ a.connection.queue = a.connection.queue ++ es ∧ ∀ e ∈ es, e = Event.closed :=
    ⟨[], rfl, (List.append_nil _).symm, by simp⟩
  unfold react
  split
  · simp only [Connection.closeChannel]
    split
    · exact ⟨rfl, rfl, rfl, by simp [Connection.post], ⟨[.closed], rfl, rfl, by simp⟩, rfl, rfl, rfl, rfl, rfl, id⟩
    · exact ⟨rfl, rfl, rfl, by simp, hnone, rfl, rfl, rfl, rfl, rfl, id⟩
  · split
    · exact ⟨rfl, rfl, rfl, by simp, hnone, rfl, rfl, rfl, rfl, rfl, fun _ => by simp [Connection.isReachable]⟩
    · exact ⟨rfl, rfl, rfl, by simp, hnone, rfl, rfl, rfl, rfl, rfl, id⟩
  · exact ⟨rfl, rfl, rfl, by simp, hnone, rfl, rfl, rfl, rfl, rfl, id⟩
  · rename_i hclose hoffer hrefuse
    refine ⟨rfl, rfl, rfl, by simp, hnone, ?_, rfl, rfl, ?_, rfl, id⟩
    · simp [Channel.after, show x ≠ .call .close from hclose]
    · cases x with
      | offer => exact absurd rfl hoffer
      | refuse fault => exact absurd rfl (hrefuse fault)
      | _ => rfl

theorem reacts_reacts (a : Attempt) (actions : List Action) :
    Reacts a actions (a.reacts actions).log (a.reacts actions).value := by
  induction actions generalizing a with
  | nil => exact ⟨rfl, rfl, rfl, by simp [reacts], ⟨[], rfl, (List.append_nil _).symm, by simp⟩, rfl, rfl, rfl, rfl, rfl, id⟩
  | cons x rest ih =>
      have hx := react_reacts a x
      have hrest := ih (a.react x).value
      obtain ⟨first, hfirst, hmid, hclosed⟩ := hx.posts
      obtain ⟨later, hlater, hlast, hclosed'⟩ := hrest.posts
      exact {
        happenings := by simp [reacts, hx.happenings, hrest.happenings]
        done := by simp [reacts, hx.done, hrest.done]
        unheard := by simp [reacts, hx.unheard, hrest.unheard]
        notices := Entry.noticesOnly_append.2 ⟨hx.notices, hrest.notices⟩
        posts := by
          refine ⟨first ++ later, by simp [reacts, hfirst, hlater], ?_, ?_⟩
          · simp only [reacts, Logged.value_bind, hlast, hmid, List.append_assoc]
          · simp only [List.mem_append]
            exact fun e he => he.elim (hclosed e) (hclosed' e)
        session := by
          simp only [reacts, Logged.value_bind, hrest.session, hx.session]
          rfl
        id := hrest.id.trans hx.id
        place := hrest.place.trans hx.place
        promise := by
          simp only [reacts, Logged.value_bind, hrest.promise, hx.promise, hx.id]
          rfl
        life := hrest.life.trans hx.life
        reach := hrest.reach ∘ hx.reach }

theorem hear_eq (a : Attempt) (i : Input) :
    let said := a.connection.session.respond i
    let reacted := reacts { a with connection := { a.connection with session := said.value } } said.actions
    a.hear i = ⟨reacted.value, .input i :: reacted.log⟩ := by
  simp only [hear, ask, bind, pure, List.append_nil]
  rfl

theorem hear_actions (a : Attempt) (i : Input) :
    Entry.actions (a.hear i).log = (a.connection.session.respond i).actions := by
  rw [hear_eq]
  exact (reacts_reacts _ _).done

theorem hear_works (a : Attempt) (i : Input) : Works a [i] (a.hear i).log (a.hear i).value := by
  have hr := reacts_reacts
    { a with connection := { a.connection with session := (a.connection.session.respond i).value } }
    (a.connection.session.respond i).actions
  rw [hear_eq]
  exact {
    heard := by simp [hr.unheard]
    session := hr.session
    happenings := by simp [hr.happenings]
    notices := by simpa using hr.notices
    id := hr.id
    place := hr.place
    promise := by simpa [hr.done] using hr.promise
    posts := by simpa using hr.posts
    life := hr.life
    reach := hr.reach }

theorem ask_eq {α : Type} {f : Session → Traced (Session × α)} {i : Input}
    (hf : ∀ s : Session, s.respond i = f s >>= fun x => pure x.1) :
    (a.ask i f).value.1 = (a.hear i).value ∧ (a.ask i f).log = (a.hear i).log := by
  simp [ask, hear, hf]

theorem judged_eq {f : Session → Traced (Session × Option Fault)} {i : Input}
    (hf : ∀ s : Session, s.respond i = f s >>= fun x => pure x.1) :
    (∃ fault, (a.judged i f).value = { (a.hear i).value with
        connection := (a.hear i).value.connection.record fault })
      ∧ (a.judged i f).log = (a.hear i).log := by
  obtain ⟨hvalue, hlog⟩ := a.ask_eq hf
  exact ⟨⟨_, by rw [← hvalue]; rfl⟩, by simp [judged, hlog]⟩

def input (a : Attempt) (clock : Clock) : Event → Input
  | .active => .activate
  | .negotiated protocol => .negotiated a.promise a.connection.isReachable protocol
  | .negotiationFailed fault => .negotiationFailed fault
  | .dispatch envelope => .dispatch clock envelope.options envelope.request envelope.sink
  | .response stream part => .response stream part
  | .message m => .message m
  | .upgradeFailed => .markFallback
  | .error e => .transportError e
  | .closed => .closed a.promise

theorem dispatch_eq (a : Attempt) (clock : Clock) (envelope : Envelope) :
    let heard := a.hear (.dispatch clock envelope.options envelope.request envelope.sink)
    let ok := (a.connection.session.dispatch clock envelope.options envelope.request envelope.sink).value.2
    a.handle clock (.dispatch envelope)
      = ⟨heard.value, heard.log ++ [.notice (.accept envelope.sink ok)]⟩ := by
  obtain ⟨hvalue, hlog⟩ := a.ask_eq
    (i := .dispatch clock envelope.options envelope.request envelope.sink) fun _ => rfl
  intro heard ok
  simp only [heard, ← hvalue, ← hlog]
  rfl

theorem record_works (h : Works a inputs log b) (fault : Option Fault) :
    Works a inputs log { b with connection := b.connection.record fault } :=
  ⟨⟨h.heard, h.session, h.happenings, h.notices, h.id, h.place, h.promise⟩, h.posts, h.life, h.reach⟩

theorem judged_works (a : Attempt) {f : Session → Traced (Session × Option Fault)} {i : Input}
    (hf : ∀ s : Session, s.respond i = f s >>= fun x => pure x.1) :
    Works a [i] (a.judged i f).log (a.judged i f).value := by
  obtain ⟨⟨fault, hvalue⟩, hlog⟩ := a.judged_eq hf
  rw [hvalue, hlog]
  exact record_works (hear_works a i) fault

theorem handle_works (a : Attempt) (clock : Clock) (e : Event) :
    Works a [a.input clock e] (a.handle clock e).log (a.handle clock e).value := by
  cases e with
  | active => exact hear_works a .activate
  | negotiated protocol => exact hear_works a (.negotiated a.promise a.connection.isReachable protocol)
  | negotiationFailed fault => exact hear_works a (.negotiationFailed fault)
  | dispatch envelope =>
      have hworks := hear_works a (.dispatch clock envelope.options envelope.request envelope.sink)
      rw [dispatch_eq]
      exact ⟨hworks.aside rfl rfl rfl rfl rfl rfl (by simp [Action.isNotice]), by simpa using hworks.posts,
        hworks.life, hworks.reach⟩
  | response stream part => exact judged_works a (i := .response stream part) fun _ => rfl
  | message m => exact judged_works a (i := .message m) fun _ => rfl
  | upgradeFailed => exact hear_works a .markFallback
  | error e => exact judged_works a (i := .transportError e) fun _ => rfl
  | closed => exact hear_works a (.closed a.promise)

def listen (a : Attempt) : List Input → Logged Attempt
  | [] => pure a
  | i :: rest => do
      let a ← a.hear i
      a.listen rest

theorem listen_works (a : Attempt) (inputs : List Input) :
    Works a inputs (a.listen inputs).log (a.listen inputs).value := by
  induction inputs generalizing a with
  | nil => exact .refl a
  | cons i rest ih => exact (hear_works a i).trans (ih _)

/-- What a connection does in a poll besides handling events, up to where user code crashes. -/
inductive Chores (s : Session) (clock : Clock) (gone : Nat → Bool) : List Input → Option String → Prop
  | timed (text : String) (broken : (s.keepTime clock).value.2 = some text) :
      Chores s clock gone [.keepTime clock] (some text)
  | written (text : String) (kept : (s.keepTime clock).value.2 = none)
      (broken : ((s.after [.keepTime clock]).write clock gone).value.2 = some text) :
      Chores s clock gone [.keepTime clock, .write clock gone] (some text)
  | published (kept : (s.keepTime clock).value.2 = none)
      (done : ((s.after [.keepTime clock]).write clock gone).value.2 = none) :
      Chores s clock gone [.keepTime clock, .write clock gone, .publish] none

theorem progress_listens (a : Attempt) (clock : Clock) (gone : Nat → Bool) :
    ∃ inputs, Chores a.connection.session clock gone inputs (a.progress clock gone).value.2
      ∧ (a.progress clock gone).value.1 = (a.listen inputs).value
      ∧ (a.progress clock gone).log = (a.listen inputs).log := by
  obtain ⟨htimed, htold⟩ := a.ask_eq (i := .keepTime clock) (f := fun s => s.keepTime clock) fun _ => rfl
  obtain ⟨hwritten, hsaid⟩ := (a.hear (.keepTime clock)).value.ask_eq (i := .write clock gone)
    (f := fun s => s.write clock gone) fun _ => rfl
  have hsession := (hear_works a (.keepTime clock)).session
  simp only [progress, Logged.value_bind, Logged.log_bind]
  cases hcrash : (a.ask (.keepTime clock) fun s => s.keepTime clock).value.2 with
  | some text => exact ⟨_, .timed text hcrash, htimed, by simp [htold, listen]⟩
  | none =>
      simp only [htimed, htold, Logged.value_bind, Logged.log_bind]
      cases hcrash' : ((a.hear (.keepTime clock)).value.ask (.write clock gone) fun s =>
          s.write clock gone).value.2 with
      | some text =>
          exact ⟨_, .written text hcrash (hsession ▸ hcrash'), hwritten, by simp [hsaid, listen]⟩
      | none =>
          refine ⟨_, .published hcrash (hsession ▸ hcrash'), ?_, ?_⟩ <;> simp [hwritten, hsaid, listen]

end Attempt

end HttpSession
