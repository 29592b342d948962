namespace HttpSession.Text

def record (name : String) (fields : List (String × String)) : String :=
  match fields with
  | [] => name
  | _ =>
      name ++ " \x7b " ++ ", ".intercalate (fields.map fun f => f.1 ++ ": " ++ f.2) ++ " \x7d"

def applied (name : String) (arguments : List String) : String :=
  match arguments with
  | [] => name
  | _ => name ++ "(" ++ ", ".intercalate arguments ++ ")"

def optional : Option String → String
  | none => "None"
  | some text => applied "Some" [text]

def boolean (b : Bool) : String :=
  if b then "true" else "false"

def mapping (entries : List (String × String)) : String :=
  "\x7b" ++ ", ".intercalate (entries.map fun e => e.1 ++ ": " ++ e.2) ++ "\x7d"

def sequence (items : List String) : String :=
  "[" ++ ", ".intercalate items ++ "]"

end HttpSession.Text
