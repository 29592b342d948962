import HttpSession.Connection.Event
import HttpSession.Session.Input

namespace HttpSession

inductive Dealing where
  | poll
  | take (e : Event)
  | rest
  | post (e : Event)
  | wake
  | shut
  deriving DecidableEq, Repr

/-- A connection gives its session something to hear and does what the session does about it. It
tells callers something by itself, and it deals with its channel. -/
inductive Entry where
  | input (i : Input)
  | action (a : Action)
  | notice (a : Action)
  | dealing (d : Dealing)

namespace Entry

def input? : Entry → Option Input
  | .input i => some i
  | _ => none

def action? : Entry → Option Action
  | .action a | .notice a => some a
  | _ => none

def dealing? : Entry → Option Dealing
  | .dealing d => some d
  | _ => none

def inputs (log : List Entry) : List Input := log.filterMap input?

def actions (log : List Entry) : List Action := log.filterMap action?

def dealings (log : List Entry) : List Dealing := log.filterMap dealing?

section

variable {xs ys : List Entry}

@[simp] theorem inputs_nil : inputs [] = [] := rfl

@[simp] theorem inputs_append : inputs (xs ++ ys) = inputs xs ++ inputs ys := List.filterMap_append

@[simp] theorem inputs_input (i : Input) : inputs (.input i :: xs) = i :: inputs xs := rfl

@[simp] theorem inputs_action (a : Action) : inputs (.action a :: xs) = inputs xs := rfl

@[simp] theorem inputs_notice (a : Action) : inputs (.notice a :: xs) = inputs xs := rfl

@[simp] theorem inputs_dealing (d : Dealing) : inputs (.dealing d :: xs) = inputs xs := rfl

@[simp] theorem actions_nil : actions [] = [] := rfl

@[simp] theorem actions_append : actions (xs ++ ys) = actions xs ++ actions ys :=
  List.filterMap_append

@[simp] theorem actions_input (i : Input) : actions (.input i :: xs) = actions xs := rfl

@[simp] theorem actions_action (a : Action) : actions (.action a :: xs) = a :: actions xs := rfl

@[simp] theorem actions_notice (a : Action) : actions (.notice a :: xs) = a :: actions xs := rfl

@[simp] theorem actions_dealing (d : Dealing) : actions (.dealing d :: xs) = actions xs := rfl

@[simp] theorem dealings_nil : dealings [] = [] := rfl

@[simp] theorem dealings_append : dealings (xs ++ ys) = dealings xs ++ dealings ys :=
  List.filterMap_append

@[simp] theorem dealings_input (i : Input) : dealings (.input i :: xs) = dealings xs := rfl

@[simp] theorem dealings_action (a : Action) : dealings (.action a :: xs) = dealings xs := rfl

@[simp] theorem dealings_notice (a : Action) : dealings (.notice a :: xs) = dealings xs := rfl

@[simp] theorem dealings_dealing (d : Dealing) : dealings (.dealing d :: xs) = d :: dealings xs := rfl

end

end Entry

structure Logged (α : Type) where
  value : α
  log : List Entry

namespace Logged

variable {α β : Type}

instance : Monad Logged where
  pure a := ⟨a, []⟩
  bind x f := ⟨(f x.value).value, x.log ++ (f x.value).log⟩

def note (log : List Entry) : Logged Unit := ⟨(), log⟩

def inputs (t : Logged α) : List Input := Entry.inputs t.log

def actions (t : Logged α) : List Action := Entry.actions t.log

def dealings (t : Logged α) : List Dealing := Entry.dealings t.log

section

variable (a : α) (x : Logged α) (f : α → Logged β) (log : List Entry)

@[simp] theorem value_pure : (pure a : Logged α).value = a := rfl

@[simp] theorem log_pure : (pure a : Logged α).log = [] := rfl

@[simp] theorem value_bind : (x >>= f).value = (f x.value).value := rfl

@[simp] theorem log_bind : (x >>= f).log = x.log ++ (f x.value).log := rfl

@[simp] theorem log_note : (note log).log = log := rfl

@[simp] theorem inputs_pure : (pure a : Logged α).inputs = [] := rfl

@[simp] theorem inputs_bind : (x >>= f).inputs = x.inputs ++ (f x.value).inputs :=
  Entry.inputs_append

@[simp] theorem actions_pure : (pure a : Logged α).actions = [] := rfl

@[simp] theorem actions_bind : (x >>= f).actions = x.actions ++ (f x.value).actions :=
  Entry.actions_append

@[simp] theorem dealings_pure : (pure a : Logged α).dealings = [] := rfl

@[simp] theorem dealings_bind : (x >>= f).dealings = x.dealings ++ (f x.value).dealings :=
  Entry.dealings_append

end

end Logged

end HttpSession
