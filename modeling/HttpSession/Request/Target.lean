import HttpSession.Octets

namespace HttpSession

structure Target where
  scheme : Option Octets
  authority : Option Octets
  path : Option Octets
  deriving DecidableEq, Repr

namespace Target

def slash : Octets := [47]

def withoutFragment (octets : Octets) : Octets :=
  octets.takeWhile (· != 35)

def orSlash (octets : Octets) : Octets :=
  if octets.isEmpty then slash else octets

def endsAuthority (b : UInt8) : Bool :=
  b == 47 || b == 63 || b == 35

def normalScheme (scheme : Octets) : Octets :=
  let lower := scheme.map lowerAscii
  if lower == ascii "http" || lower == ascii "https" then lower else scheme

def absolute (scheme rest : Octets) : Target where
  scheme := some (normalScheme scheme)
  authority := some (rest.takeWhile fun b => !endsAuthority b)
  path := some (orSlash (withoutFragment (rest.dropWhile fun b => !endsAuthority b)))

def ofOctets (octets : Octets) : Target :=
  match octets with
  | 47 :: _ => ⟨none, none, some (withoutFragment octets)⟩
  | [42] => ⟨none, none, some octets⟩
  | _ =>
      match octets.dropWhile (· != 58) with
      | 58 :: 47 :: 47 :: rest => absolute (octets.takeWhile (· != 58)) rest
      | _ => ⟨none, some octets, none⟩

def queryless (path : Octets) : Octets :=
  orSlash (path.takeWhile (· != 63))

def query (path : Octets) : Octets :=
  path.dropWhile (· != 63)

def text (t : Target) : Octets :=
  (t.scheme.map (· ++ ascii "://")).getD [] ++ t.authority.getD []
    ++ (t.path.map fun p => queryless p ++ query p).getD []

end Target

end HttpSession
