import HttpSession.Session.Input

namespace HttpSession

theorem split_of_append_eq {α : Type} {xs ys as bs : List α} {z : α} (h : xs ++ ys = as ++ z :: bs) :
    (∃ tail, xs = as ++ z :: tail ∧ bs = tail ++ ys) ∨ ∃ tail, as = xs ++ tail ∧ ys = tail ++ z :: bs := by
  rcases List.append_eq_append_iff.1 h with ⟨tail, rfl, rfl⟩ | ⟨tail, rfl, htail⟩
  · exact .inr ⟨tail, rfl, rfl⟩
  · cases tail with
    | nil => exact .inr ⟨[], by simp, htail.symm⟩
    | cons a tail =>
        obtain ⟨rfl, rfl⟩ := List.cons.inj htail
        exact .inl ⟨tail, rfl, rfl⟩

theorem split_at {α β : Type} {f : α → Option β} {xs : List α} {n : Nat} {b : β}
    (h : xs[n]?.bind f = some b) : ∃ a behind, xs = xs.take n ++ a :: behind ∧ f a = some b := by
  obtain ⟨a, ha, hb⟩ := Option.bind_eq_some_iff.1 h
  obtain ⟨hn, rfl⟩ := List.getElem?_eq_some_iff.1 ha
  have hsplit := (List.take_append_drop n xs).symm
  rw [List.drop_eq_getElem_cons hn] at hsplit
  exact ⟨_, _, hsplit, hb⟩

theorem eq_of_append_eq_append {α : Type} {p : α → Prop} {xs ys as bs : List α} {y z : α}
    (hx : ∀ a ∈ xs, ¬p a) (hy : ∀ a ∈ ys, ¬p a) (hz : p z)
    (h : xs ++ y :: ys = as ++ z :: bs) : xs = as ∧ y = z ∧ ys = bs := by
  rcases List.append_eq_append_iff.1 h with ⟨tail, rfl, htail⟩ | ⟨tail, rfl, htail⟩
  · cases tail with
    | nil =>
        obtain ⟨rfl, rfl⟩ := List.cons.inj htail
        exact ⟨(List.append_nil _).symm, rfl, rfl⟩
    | cons a tail =>
        obtain ⟨rfl, rfl⟩ : y = a ∧ ys = tail ++ z :: bs := by simpa using htail
        exact absurd hz (hy z (by simp))
  · cases tail with
    | nil =>
        obtain ⟨rfl, rfl⟩ := List.cons.inj htail
        exact ⟨List.append_nil _, rfl, rfl⟩
    | cons a tail =>
        obtain ⟨rfl, rfl⟩ : z = a ∧ bs = tail ++ y :: ys := by simpa using htail
        exact absurd hz (hx z (by simp))

inductive Happening where
  | input (i : Input)
  | action (a : Action)

namespace Happening

def ofActions (actions : List Action) : List Happening :=
  actions.map action

@[simp] theorem ofActions_nil : ofActions [] = [] := rfl

@[simp] theorem ofActions_cons (a : Action) (actions : List Action) :
    ofActions (a :: actions) = .action a :: ofActions actions := rfl

@[simp] theorem ofActions_append (xs ys : List Action) :
    ofActions (xs ++ ys) = ofActions xs ++ ofActions ys := List.map_append

@[simp] theorem action_mem_ofActions {a : Action} {actions : List Action} :
    .action a ∈ ofActions actions ↔ a ∈ actions := by
  simp [ofActions]

@[simp] theorem input_notMem_ofActions {i : Input} {actions : List Action} :
    .input i ∉ ofActions actions := by
  simp [ofActions]

theorem ofActions_eq_append_cons {actions : List Action} {a : Action} {before behind : List Happening}
    (h : ofActions actions = before ++ .action a :: behind) :
    ∃ xs ys, actions = xs ++ a :: ys ∧ before = ofActions xs ∧ behind = ofActions ys := by
  obtain ⟨xs, zs, rfl, rfl, hzs⟩ := List.map_eq_append_iff.1 h
  obtain ⟨b, ys, rfl, hb, rfl⟩ := List.map_eq_cons_iff.1 hzs
  obtain rfl := Happening.action.inj hb
  exact ⟨xs, ys, rfl, rfl, rfl⟩

def action? : Happening → Option Action
  | .action a => some a
  | .input _ => none

def deeds (h : List Happening) : List Action := h.filterMap action?

theorem action_mem_iff {a : Action} {h : List Happening} : .action a ∈ h ↔ a ∈ deeds h := by
  simp only [deeds, List.mem_filterMap]
  constructor
  · exact fun ha => ⟨_, ha, rfl⟩
  · rintro ⟨x | b, hx, hb⟩
    · simp [action?] at hb
    · obtain rfl := Option.some.inj hb
      exact hx

end Happening

def Request.bare : Request :=
  ⟨⟨ascii "GET", ⟨none, none, some Target.slash⟩, .http11, .empty⟩, .empty 0⟩

namespace Session

def felt (t : Traced Session) : Traced Session :=
  ⟨{ t.value with channel := t.value.channel.after t.actions }, t.actions⟩

def step (s : Session) (i : Input) : Traced Session :=
  felt (s.respond i)

def after (s : Session) (inputs : List Input) : Session :=
  inputs.foldl (fun s i => (s.step i).value) s

def history (s : Session) : List Input → List Happening
  | [] => []
  | i :: rest => .input i :: Happening.ofActions (s.step i).actions ++ (s.step i).value.history rest

def IsNew (s : Session) : Prop :=
  ∃ channel timer clock limit ceiling speaksHttp1,
    Session.new channel timer clock limit ceiling speaksHttp1 = .ok s

def blank (ceiling : Nat) : Session where
  status := ⟨true, false, false, none⟩
  channel := .new (.v4 #v[127, 0, 0, 1] 80) true true
  timer := .absent
  readings := 0
  negotiation := none
  alarm := none
  dispatched := 0
  ceiling := ceiling
  speaksHttp1 := true
  phase := .negotiating
  transportClosed := false

theorem blank_isNew (ceiling : Nat) : (blank ceiling).IsNew :=
  ⟨(blank ceiling).channel, .absent, ⟨0, 0, fun _ => false⟩, none, ceiling, true, rfl⟩

def turn : Input := .write ⟨0, 0, fun _ => false⟩ fun _ => false

@[simp] theorem step_actions (s : Session) (i : Input) : (s.step i).actions = (s.respond i).actions :=
  rfl

@[simp] theorem after_nil (s : Session) : s.after [] = s := rfl

@[simp] theorem after_cons (s : Session) (i : Input) (rest : List Input) :
    s.after (i :: rest) = (s.step i).value.after rest := rfl

theorem after_append (s : Session) (xs ys : List Input) :
    s.after (xs ++ ys) = (s.after xs).after ys := List.foldl_append

@[simp] theorem history_nil (s : Session) : s.history [] = [] := rfl

@[simp] theorem history_cons (s : Session) (i : Input) (rest : List Input) :
    s.history (i :: rest) = .input i :: Happening.ofActions (s.step i).actions
      ++ (s.step i).value.history rest := rfl

theorem history_append (s : Session) (xs ys : List Input) :
    s.history (xs ++ ys) = s.history xs ++ (s.after xs).history ys := by
  induction xs generalizing s with
  | nil => rfl
  | cons i rest ih => simp [ih]

theorem input_mem_history {s : Session} {i : Input} {inputs : List Input} :
    .input i ∈ s.history inputs ↔ i ∈ inputs := by
  induction inputs generalizing s with
  | nil => simp
  | cons j rest ih => simp [ih]

end Session

end HttpSession
