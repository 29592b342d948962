namespace HttpSession.Text

def trimZeros (digits : List Char) : List Char :=
  (digits.reverse.dropWhile (· == '0')).reverse

def padded (width n : Nat) : List Char :=
  let digits := (toString n).toList
  List.replicate (width - digits.length) '0' ++ digits

def decimal (places n : Nat) : String :=
  let unit := Nat.pow 10 places
  let fraction := trimZeros (padded places (n % unit))
  let whole := toString (n / unit)
  if fraction.isEmpty then whole else whole ++ "." ++ String.ofList fraction

def span (nanoseconds : Nat) : String :=
  if 1000000000 ≤ nanoseconds then decimal 9 nanoseconds ++ "s"
  else if 1000000 ≤ nanoseconds then decimal 6 nanoseconds ++ "ms"
  else if 1000 ≤ nanoseconds then decimal 3 nanoseconds ++ "µs"
  else toString nanoseconds ++ "ns"

end HttpSession.Text
