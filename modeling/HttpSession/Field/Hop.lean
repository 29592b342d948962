import HttpSession.Field

namespace HttpSession.Fields

def hopNames : List Octets :=
  [Field.keepAlive, Field.proxyConnection, Field.transferEncoding, Field.upgrade]

def listedNames (value : Octets) : List Octets :=
  if value.all isVisible then
    (splitOn 44 value).map fun piece => (trimBlanks piece).map lowerAscii
  else []

def withoutForeignTe (fields : Fields) : Fields :=
  match fields.get? Field.te with
  | some value => if value == Field.trailers then fields else fields.remove Field.te
  | none => fields

def withoutListed (fields : Fields) : Fields :=
  match fields.get? Field.connection with
  | some value => (fields.remove Field.connection).removeAll (listedNames value)
  | none => fields

def withoutHop (fields : Fields) : Fields :=
  (fields.removeAll hopNames).withoutForeignTe.withoutListed

end HttpSession.Fields
