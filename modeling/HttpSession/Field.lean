import HttpSession.Text.Quoted
import HttpSession.Text.Record

namespace HttpSession

structure Field where
  name : Octets
  values : List Octets
  deriving DecidableEq, Repr

structure Fields where
  entries : List Field
  deriving DecidableEq, Repr

namespace Fields

def empty : Fields := ⟨[]⟩

def find? (fields : Fields) (name : Octets) : Option Field :=
  fields.entries.find? (·.name == name)

def contains (fields : Fields) (name : Octets) : Bool :=
  fields.entries.any (·.name == name)

def get? (fields : Fields) (name : Octets) : Option Octets :=
  (fields.find? name).bind (·.values.head?)

def values (fields : Fields) (name : Octets) : List Octets :=
  ((fields.find? name).map Field.values).getD []

def append (fields : Fields) (name value : Octets) : Fields :=
  if fields.contains name then
    ⟨fields.entries.map fun f => if f.name == name then { f with values := f.values ++ [value] } else f⟩
  else
    ⟨fields.entries ++ [⟨name, [value]⟩]⟩

def insert (fields : Fields) (name value : Octets) : Fields :=
  if fields.contains name then
    ⟨fields.entries.map fun f => if f.name == name then ⟨name, [value]⟩ else f⟩
  else
    ⟨fields.entries ++ [⟨name, [value]⟩]⟩

def lastFirst (entries : List Field) : List Field :=
  match entries.getLast? with
  | none => []
  | some f => f :: entries.dropLast

def removeEntry (name : Octets) : List Field → List Field
  | [] => []
  | f :: rest => if f.name == name then lastFirst rest else f :: removeEntry name rest

def remove (fields : Fields) (name : Octets) : Fields :=
  ⟨removeEntry name fields.entries⟩

def removeAll (fields : Fields) (names : List Octets) : Fields :=
  names.foldl remove fields

def lines (fields : Fields) : List (Octets × Octets) :=
  fields.entries.flatMap fun f => f.values.map fun v => (f.name, v)

def ofLines (lines : List (Octets × Octets)) : Fields :=
  lines.foldl (fun fields line => fields.append (line.1.map lowerAscii) line.2) empty

def block (fields : Fields) : Octets :=
  fields.lines.flatMap fun line => line.1 ++ [58, 32] ++ line.2 ++ crlf

def debug (fields : Fields) : String :=
  Text.mapping (fields.lines.map fun line =>
    (Text.quoted (Text.ofAscii line.1), Text.quotedField line.2))

variable {fields : Fields} {name value : Octets}

theorem insert_of_contains (h : fields.contains name = false) (value : Octets) :
    fields.insert name value = ⟨fields.entries ++ [⟨name, [value]⟩]⟩ := by
  simp [insert, h]

theorem insert_lines (h : fields.contains name = false) (value : Octets) :
    (fields.insert name value).lines = fields.lines ++ [(name, value)] := by
  simp [insert_of_contains h, lines]

theorem remove_of_contains (h : fields.contains name = false) : fields.remove name = fields := by
  have hentries (entries : List Field) (hn : ∀ f ∈ entries, f.name ≠ name) :
      removeEntry name entries = entries := by
    induction entries with
    | nil => rfl
    | cons f rest ih =>
        rw [removeEntry, if_neg (by simpa using hn f List.mem_cons_self),
          ih fun g hg => hn g (List.mem_cons_of_mem _ hg)]
  rw [remove, hentries]
  simpa [contains] using h

theorem contains_of_mem (h : (name, value) ∈ fields.lines) : fields.contains name = true := by
  obtain ⟨f, hf, hv⟩ := List.mem_flatMap.1 h
  obtain ⟨v, -, he⟩ := List.mem_map.1 hv
  exact List.any_eq_true.2 ⟨f, hf, by simp [(Prod.mk.inj he).1]⟩

theorem mem_of_contains (hf : ∀ f ∈ fields.entries, f.values ≠ []) (h : fields.contains name = true) :
    ∃ value, (name, value) ∈ fields.lines := by
  obtain ⟨f, hmem, hname⟩ := List.any_eq_true.1 h
  obtain ⟨v, rest, hv⟩ := List.exists_cons_of_ne_nil (hf f hmem)
  refine ⟨v, List.mem_flatMap.2 ⟨f, hmem, ?_⟩⟩
  simp [hv, beq_iff_eq.1 hname]

end Fields

namespace Field

def host : Octets := ascii "host"
def contentLength : Octets := ascii "content-length"
def transferEncoding : Octets := ascii "transfer-encoding"
def connection : Octets := ascii "connection"
def keepAlive : Octets := ascii "keep-alive"
def proxyConnection : Octets := ascii "proxy-connection"
def upgrade : Octets := ascii "upgrade"
def te : Octets := ascii "te"
def chunked : Octets := ascii "chunked"
def trailers : Octets := ascii "trailers"

end Field

end HttpSession
