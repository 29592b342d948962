namespace HttpSession

abbrev Octets := List UInt8

def ascii (text : String) : Octets :=
  text.toList.map fun c => c.toNat.toUInt8

def utf8 (text : String) : Octets :=
  text.toUTF8.data.toList

def crlf : Octets := [13, 10]

def lowerAscii (b : UInt8) : UInt8 :=
  if 65 ≤ b ∧ b ≤ 90 then b + 32 else b

def hexDigits (n : Nat) : List Nat :=
  if n < 16 then [n] else hexDigits (n / 16) ++ [n % 16]

def upperHexDigit (d : Nat) : UInt8 :=
  if d < 10 then (48 + d).toUInt8 else (55 + d).toUInt8

def upperHex (n : Nat) : Octets :=
  (hexDigits n).map upperHexDigit

def lowerHexDigit (d : Nat) : Char :=
  if d < 10 then Char.ofNat (48 + d) else Char.ofNat (87 + d)

def lowerHex (n : Nat) : String :=
  String.ofList ((hexDigits n).map lowerHexDigit)

def hexPair (b : UInt8) : List Char :=
  [lowerHexDigit (b.toNat / 16), lowerHexDigit (b.toNat % 16)]

def hexDump (octets : Octets) : String :=
  String.ofList (octets.flatMap hexPair)

def digit? (b : UInt8) : Option Nat :=
  if 48 ≤ b ∧ b ≤ 57 then some (b.toNat - 48)
  else if 97 ≤ b ∧ b ≤ 102 then some (b.toNat - 87)
  else if 65 ≤ b ∧ b ≤ 70 then some (b.toNat - 55)
  else none

def number? (base : Nat) (octets : Octets) : Option Nat :=
  if octets.isEmpty then none
  else octets.foldlM (fun n b => ((digit? b).filter (· < base)).map (n * base + ·)) 0

theorem digit?_upperHexDigit {d : Nat} (h : d < 16) : digit? (upperHexDigit d) = some d := by
  decide +revert

theorem foldlM_upperHex (n : Nat) :
    (upperHex n).foldlM (fun n b => ((digit? b).filter (· < 16)).map (n * 16 + ·)) 0 = some n := by
  unfold upperHex
  induction n using hexDigits.induct with
  | case1 n h =>
      rw [hexDigits, if_pos h]
      simp [digit?_upperHexDigit h, h]
  | case2 n h ih =>
      have hd : n % 16 < 16 := Nat.mod_lt n (by decide)
      rw [hexDigits, if_neg h, List.map_append, List.foldlM_append, ih]
      have hlast : (digit? (upperHexDigit (n % 16))).filter (· < 16) = some (n % 16) := by
        rw [digit?_upperHexDigit hd, Option.filter_some, if_pos (decide_eq_true hd)]
      change (Option.map _ ((digit? (upperHexDigit (n % 16))).filter (· < 16))).bind some = _
      rw [hlast]
      exact congrArg some (Nat.div_add_mod' n 16)

theorem number?_upperHex (n : Nat) : number? 16 (upperHex n) = some n := by
  have hn : (upperHex n).isEmpty = false := by
    rw [upperHex, hexDigits]
    split <;> simp
  rw [number?, hn]
  exact foldlM_upperHex n

def isVisible (b : UInt8) : Bool :=
  (32 ≤ b && b < 127) || b == 9

def isBlank (b : UInt8) : Bool :=
  b == 32 || b == 9

def trimBlanks (octets : Octets) : Octets :=
  ((octets.dropWhile isBlank).reverse.dropWhile isBlank).reverse

def splitOn (separator : UInt8) : Octets → List Octets
  | [] => [[]]
  | b :: rest =>
      if b = separator then [] :: splitOn separator rest
      else
        match splitOn separator rest with
        | [] => [[b]]
        | piece :: pieces => (b :: piece) :: pieces

theorem splitOn_self {separator : UInt8} {l : Octets} (h : separator ∉ l) : splitOn separator l = [l] := by
  induction l with
  | nil => rfl
  | cons x tail ih =>
      rw [List.mem_cons, not_or] at h
      rw [splitOn, if_neg (Ne.symm h.1), ih h.2]

theorem splitOn_append {separator : UInt8} {l : Octets} (h : separator ∉ l) (rest : Octets) :
    splitOn separator (l ++ separator :: rest) = l :: splitOn separator rest := by
  induction l with
  | nil => simp [splitOn]
  | cons x tail ih =>
      rw [List.mem_cons, not_or] at h
      rw [List.cons_append, splitOn, if_neg (Ne.symm h.1), ih h.2]

end HttpSession
