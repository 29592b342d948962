import HttpSession.Octets
import HttpSession.Text.Hidden

namespace HttpSession.Text

def isControl (c : Char) : Bool :=
  c.toNat < 32 || c.toNat == 127

def isConcealed (c : Char) : Bool :=
  isControl c || (127 < c.toNat && isHidden c.toNat)

def codePoint (c : Char) : String :=
  "\\u\x7b" ++ lowerHex c.toNat ++ "\x7d"

def escapeChar (c : Char) : String :=
  match c with
  | '\x00' => "\\0"
  | '\t' => "\\t"
  | '\n' => "\\n"
  | '\r' => "\\r"
  | '\\' => "\\\\"
  | '"' => "\\\""
  | _ => if isConcealed c then codePoint c else c.toString

def quoted (text : String) : String :=
  "\"" ++ String.join (text.toList.map escapeChar) ++ "\""

def escapeOctet (b : UInt8) : String :=
  if b = 10 then "\\n"
  else if b = 13 then "\\r"
  else if b = 9 then "\\t"
  else if b = 92 then "\\\\"
  else if b = 34 then "\\\""
  else if b = 0 then "\\0"
  else if 32 ≤ b && b < 127 then (Char.ofNat b.toNat).toString
  else "\\x" ++ String.ofList (hexPair b)

def quotedOctets (octets : Octets) : String :=
  "b\"" ++ String.join (octets.map escapeOctet) ++ "\""

def escapeFieldOctet (b : UInt8) : String :=
  if b = 34 then "\\\""
  else if isVisible b then (Char.ofNat b.toNat).toString
  else "\\x" ++ lowerHex b.toNat

def quotedField (octets : Octets) : String :=
  "\"" ++ String.join (octets.map escapeFieldOctet) ++ "\""

def ofAscii (octets : Octets) : String :=
  String.ofList (octets.map fun b => Char.ofNat b.toNat)

def ofUtf8 (octets : Octets) : String :=
  (String.fromUTF8? ⟨octets.toArray⟩).getD (ofAscii octets)

end HttpSession.Text
