import HttpSession.Field

/-! A reader of HTTP/1.1 requests that knows nothing of how they were written. -/

namespace HttpSession.Http1

structure Received where
  method : Octets
  target : Octets
  fields : List (Octets × Octets)
  body : Octets
  trailers : List (Octets × Octets)
  deriving DecidableEq, Repr

def cut? (a b : UInt8) : Octets → Option (Octets × Octets)
  | [] => none
  | x :: rest =>
      if x = a ∧ rest.head? = some b then some ([], rest.tail)
      else (cut? a b rest).map fun parts => (x :: parts.1, parts.2)

def line? (octets : Octets) : Option (Octets × Octets) := cut? 13 10 octets

def field? (line : Octets) : Option (Octets × Octets) := cut? 58 32 line

variable {a b : UInt8} {octets rest : Octets}

theorem cut?_shorter {l : Octets} (h : cut? a b octets = some (l, rest)) :
    rest.length < octets.length := by
  induction octets generalizing l with
  | nil => simp [cut?] at h
  | cons x tail ih =>
      unfold cut? at h
      split at h
      · obtain ⟨-, rfl⟩ := Prod.mk.inj (Option.some.inj h)
        simp only [List.length_tail, List.length_cons]
        omega
      · obtain ⟨parts, hparts, he⟩ := Option.map_eq_some_iff.1 h
        obtain ⟨-, rfl⟩ := Prod.mk.inj he
        exact Nat.lt_succ_of_lt (ih hparts)

def fields? (octets : Octets) : Option (List (Octets × Octets) × Octets) :=
  match _h : line? octets with
  | none => none
  | some (line, rest) =>
      if line.isEmpty then some ([], rest)
      else do
        let field ← field? line
        let more ← fields? rest
        return (field :: more.1, more.2)
termination_by octets.length
decreasing_by exact cut?_shorter ‹_›

def chunks? (octets : Octets) : Option (Octets × List (Octets × Octets) × Octets) :=
  match _h : line? octets with
  | none => none
  | some (line, rest) => do
      let size ← number? 16 line
      if size = 0 then
        let trailers ← fields? rest
        return ([], trailers)
      else if (rest.drop size).take 2 = crlf then
        let more ← chunks? (rest.drop (size + 2))
        return (rest.take size ++ more.1, more.2)
      else none
termination_by octets.length
decreasing_by
  have := cut?_shorter ‹_›
  simp only [List.length_drop]
  omega

def valueOf? (name : Octets) (fields : List (Octets × Octets)) : Option Octets :=
  (fields.find? fun field => field.1.map lowerAscii == name).map Prod.snd

def body? (fields : List (Octets × Octets)) (octets : Octets) :
    Option (Octets × List (Octets × Octets) × Octets) :=
  match valueOf? Field.transferEncoding fields, valueOf? Field.contentLength fields with
  | some coding, _ => if coding = Field.chunked then chunks? octets else none
  | none, some length => do
      let length ← number? 10 length
      if length ≤ octets.length then return (octets.take length, [], octets.drop length) else none
  | none, none => some ([], [], octets)

def message? (octets : Octets) : Option (Received × Octets) := do
  let first ← line? octets
  match splitOn 32 first.1 with
  | [method, target, version] =>
      if version = ascii "HTTP/1.1" then
        let fields ← fields? first.2
        let body ← body? fields.1 fields.2
        return (⟨method, target, fields.1, body.1, body.2.1⟩, body.2.2)
      else none
  | _ => none

theorem fields?_of_none (h : line? octets = none) : fields? octets = none := by
  rw [fields?]
  split
  · rfl
  · rename_i hline
    simp [h] at hline

theorem fields?_of_line {line : Octets} (h : line? octets = some (line, rest)) :
    fields? octets = if line.isEmpty then some ([], rest)
      else (field? line).bind fun field =>
        (fields? rest).bind fun more => some (field :: more.1, more.2) := by
  rw [fields?]
  split
  · rename_i hline
    simp [h] at hline
  · rename_i line' rest' hline
    obtain ⟨rfl, rfl⟩ := Prod.mk.inj (Option.some.inj (hline.symm.trans h))
    rfl

theorem chunks?_of_none (h : line? octets = none) : chunks? octets = none := by
  rw [chunks?]
  split
  · rfl
  · rename_i hline
    simp [h] at hline

theorem chunks?_of_line {line : Octets} (h : line? octets = some (line, rest)) :
    chunks? octets = (number? 16 line).bind fun size =>
      if size = 0 then (fields? rest).bind fun trailers => some ([], trailers)
      else if (rest.drop size).take 2 = crlf then
        (chunks? (rest.drop (size + 2))).bind fun more => some (rest.take size ++ more.1, more.2)
      else none := by
  rw [chunks?]
  split
  · rename_i hline
    simp [h] at hline
  · rename_i line' rest' hline
    obtain ⟨rfl, rfl⟩ := Prod.mk.inj (Option.some.inj (hline.symm.trans h))
    rfl

theorem fields?_shorter {fields : List (Octets × Octets)} (h : fields? octets = some (fields, rest)) :
    rest.length < octets.length := by
  induction octets using fields?.induct generalizing fields with
  | case1 octets hline => simp [fields?_of_none hline] at h
  | case2 octets line behind hline hempty =>
      rw [fields?_of_line hline, if_pos hempty] at h
      obtain ⟨-, rfl⟩ := Prod.mk.inj (Option.some.inj h)
      exact cut?_shorter hline
  | case3 octets line behind hline hempty ih =>
      rw [fields?_of_line hline, if_neg hempty] at h
      obtain ⟨field, -, h⟩ := Option.bind_eq_some_iff.1 h
      obtain ⟨more, hmore, h⟩ := Option.bind_eq_some_iff.1 h
      obtain ⟨-, rfl⟩ := Prod.mk.inj (Option.some.inj h)
      exact Nat.lt_trans (ih hmore) (cut?_shorter hline)

theorem chunks?_shorter {body : Octets} {trailers : List (Octets × Octets)}
    (h : chunks? octets = some (body, trailers, rest)) : rest.length < octets.length := by
  induction octets using chunks?.induct generalizing body with
  | case1 octets hline => simp [chunks?_of_none hline] at h
  | case2 octets line behind hline ih =>
      rw [chunks?_of_line hline] at h
      obtain ⟨size, -, h⟩ := Option.bind_eq_some_iff.1 h
      split at h
      · obtain ⟨last, hlast, h⟩ := Option.bind_eq_some_iff.1 h
        obtain ⟨-, rfl⟩ := Prod.mk.inj (Option.some.inj h)
        exact Nat.lt_trans (fields?_shorter hlast) (cut?_shorter hline)
      · split at h
        · obtain ⟨⟨chunk, last⟩, hmore, h⟩ := Option.bind_eq_some_iff.1 h
          obtain ⟨-, rfl⟩ := Prod.mk.inj (Option.some.inj h)
          have hbehind := ih size hmore
          have hline := cut?_shorter hline
          rw [List.length_drop] at hbehind
          omega
        · simp at h

theorem body?_le {fields : List (Octets × Octets)} {body : Octets}
    {trailers : List (Octets × Octets)} (h : body? fields octets = some (body, trailers, rest)) :
    rest.length ≤ octets.length := by
  unfold body? at h
  split at h
  · split at h
    · exact Nat.le_of_lt (chunks?_shorter h)
    · simp at h
  · obtain ⟨length, -, h⟩ := Option.bind_eq_some_iff.1 h
    split at h
    · obtain ⟨-, h⟩ := Prod.mk.inj (Option.some.inj h)
      obtain ⟨-, rfl⟩ := Prod.mk.inj h
      rw [List.length_drop]
      exact Nat.sub_le _ _
    · simp at h
  · obtain ⟨-, h⟩ := Prod.mk.inj (Option.some.inj h)
    obtain ⟨-, rfl⟩ := Prod.mk.inj h
    exact Nat.le_refl _

theorem message?_shorter {m : Received} (h : message? octets = some (m, rest)) :
    rest.length < octets.length := by
  obtain ⟨first, hfirst, h⟩ := Option.bind_eq_some_iff.1 h
  split at h
  · split at h
    · obtain ⟨fields, hfields, h⟩ := Option.bind_eq_some_iff.1 h
      obtain ⟨body, hbody, h⟩ := Option.bind_eq_some_iff.1 h
      obtain ⟨-, rfl⟩ := Prod.mk.inj (Option.some.inj h)
      calc
        body.2.2.length ≤ fields.2.length := body?_le hbody
        _ < first.2.length := fields?_shorter hfields
        _ < octets.length := cut?_shorter hfirst
    · simp at h
  · simp at h

def messages? (octets : Octets) : Option (List Received) :=
  if octets.isEmpty then some []
  else
    match _h : message? octets with
    | none => none
    | some (m, rest) => (messages? rest).map fun more => m :: more
termination_by octets.length
decreasing_by exact message?_shorter ‹_›

theorem messages?_of_message {m : Received} (h : message? octets = some (m, rest)) :
    messages? octets = (messages? rest).map fun more => m :: more := by
  have hn : octets.isEmpty = false := by
    cases octets with
    | nil => exact absurd (message?_shorter h) (Nat.not_lt_zero _)
    | cons => rfl
  rw [messages?, hn]
  simp only [Bool.false_eq_true, if_false]
  split
  · rename_i hm
    simp [h] at hm
  · rename_i m' rest' hm
    obtain ⟨rfl, rfl⟩ := Prod.mk.inj (Option.some.inj (hm.symm.trans h))
    rfl

end HttpSession.Http1
