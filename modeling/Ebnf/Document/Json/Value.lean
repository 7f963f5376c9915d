import Ebnf.Document.Mismatch
import Ebnf.Document.Spec
/-! Documents as trees of values, with lists and objects in the order in which
they are written. `Decoder` reads the shape of a document off such a tree, and
the `toJson` functions write it down. -/

namespace Ebnf

inductive Json
  | null
  | boolean (value : Bool)
  | number (value : Int)
  | string (text : String)
  | list (items : List Json)
  | object (members : List (String × Json))
  deriving Repr, Inhabited

namespace Json

def found : Json → Found
  | null => .null
  | boolean b => .boolean b
  | number n => .integer n
  | string s => .string s
  | list _ => .list
  | object _ => .object

mutual

/-- How deep lists and objects are nested. -/
def depth : Json → Nat
  | list items => depthAll items + 1
  | object members => depthMembers members + 1
  | _ => 0

def depthAll : List Json → Nat
  | [] => 0
  | v :: rest => max (depth v) (depthAll rest)

def depthMembers : List (String × Json) → Nat
  | [] => 0
  | (_, v) :: rest => max (depth v) (depthMembers rest)

end

/-- Reads something off a value. -/
abbrev Decoder := ReaderT Json (Except Mismatch)

namespace Decoder

variable {σ α : Type}

def reject (m : Mismatch) : Decoder α := throw m

/-- Refuses a value that is not of the expected type. -/
def mistyped (expected : String) : Decoder α := do reject (.type (← read).found expected)

def string : Decoder String := do
  match ← read with
  | .string s => return s
  | _ => mistyped "a string"

def boolean : Decoder Bool := do
  match ← read with
  | .boolean b => return b
  | _ => mistyped "a boolean"

def natural : Decoder UInt64 := do
  match ← read with
  | .number n =>
    if n < 0 ∨ Int.ofNat UInt64.size ≤ n then reject (.value (.integer n) "usize") else return .ofNat n.toNat
  | _ => mistyped "usize"

def optional (r : Decoder α) : Decoder (Option α) := do
  match ← read with
  | .null => return none
  | _ => some <$> r

def list (r : Decoder α) : Decoder (List α) := do
  match ← read with
  | .list items => items.mapM (r ·)
  | _ => mistyped "a sequence"

/-- Reads one member of an object into the draft of a record. -/
def member (r : Record Decoder σ α) (draft : σ) (m : String × Json) : Except Mismatch σ :=
  match r.field? m.1 with
  | none => throw (.unknownField m.1 r.names)
  | some f =>
    if f.taken draft then throw (.duplicateField m.1)
    else return (← f.read m.2) draft

/-- Reads the items of a list into the fields of a record, in order. -/
def items : σ → List (Field Decoder σ) → List Json → Except Mismatch σ
  | draft, f :: fs, v :: vs => do items ((← f.read v) draft) fs vs
  | draft, _, _ => return draft

def record (r : Record Decoder σ α) : Decoder α := do
  match ← read with
  | .object members =>
    match r.finish (← (members.foldlM (member r) r.blank : Except Mismatch σ)) with
    | .ok a => return a
    | .error name => reject (.missingField name)
  | .list vs =>
    match r.finish (← items r.blank r.fields vs) with
    | .ok a =>
      if vs.length ≤ r.fields.length then return a
      else reject (.length vs.length r.title r.fields.length)
    | .error name => reject (.length (r.names.idxOf name) r.title r.fields.length)
  | _ => mistyped r.title.expected

/-- Reads what stands beside the name of a variant. -/
def payload : Payload Decoder α → Decoder α
  | .bare a => do
    match ← read with
    | .null => return a
    | _ => mistyped "unit"
  | .value r | .fields r => r

def choice (_type : String) (variants : List (Variant Decoder α)) : Decoder α := do
  match ← read with
  | .string name =>
    match variants.find? (·.name == name) with
    | none => reject (.unknownVariant name (variants.map Variant.name))
    | some v =>
      match v.payload () with
      | .bare a => return a
      | .value _ => reject (.type .bareVariant "newtype variant")
      | .fields _ => reject (.type .bareVariant "struct variant")
  | .object [(name, v)] =>
    match variants.find? (·.name == name) with
    | none => reject (.unknownVariant name (variants.map Variant.name))
    | some variant => (payload (variant.payload ())).run v
  | _ => mistyped "string or map with a single key"

instance : Source Decoder where
  string := string
  boolean := boolean
  natural := natural
  optional := optional
  list := list
  record := record
  choice := choice
  tooDeep := reject .tooDeep

end Decoder

/-- Reads a value with `r`, which is told how deep to go at most. -/
def decode {α : Type} (r : Nat → Decoder α) (v : Json) : Except Mismatch α := (r (v.depth + 1)).run v

end Json

mutual

def Expr.toJson : Expr → Json
  | .epsilon => .string "Epsilon"
  | .literal text => .object [("Literal", .string text)]
  | .characterSet name => .object [("CharacterSet", .string name)]
  | .nonTerminal name => .object [("NonTerminal", .string name)]
  | .sequence parts => .object [("Sequence", .list (Expr.toJsonAll parts))]
  | .alternatives branches => .object [("Alternatives", .list (Expr.toJsonAll branches))]
  | .optional body => .object [("Optional", body.toJson)]
  | .repetition min max body => .object [("Repetition", .object [
    ("min", .number min.toNat),
    ("max", max.elim .null fun n => .number n.toNat),
    ("expr", body.toJson)])]

def Expr.toJsonAll : List Expr → List Json
  | [] => []
  | e :: rest => e.toJson :: Expr.toJsonAll rest

end

/-- A text, or null where there is none. -/
def Json.ofText? (text : Option String) : Json := text.elim .null .string

def ProductionSpec.toJson (s : ProductionSpec) : Json :=
  .object [("name", .string s.name), ("description", .ofText? s.description), ("body", s.body.toJson)]

def VocabularySpec.toJson (s : VocabularySpec) : Json :=
  .object [("language", .string s.language), ("productions", .list (s.productions.map (·.toJson)))]

def GrammarSpec.toJson (s : GrammarSpec) : Json :=
  .object [("language", .string s.language), ("case_sensitive", .boolean s.caseSensitive),
    ("vocabularies", .list (s.vocabularies.map .string)),
    ("productions", .list (s.productions.map (·.toJson)))]

namespace Json

def toExpr? (v : Json) : Except Mismatch Expr := decode Expr.read v

def toGrammarSpec? (v : Json) : Except Mismatch GrammarSpec := decode GrammarSpec.read v

def toVocabularySpec? (v : Json) : Except Mismatch VocabularySpec := decode VocabularySpec.read v

def toProductionSpec? (v : Json) : Except Mismatch ProductionSpec := decode ProductionSpec.read v

end Json

end Ebnf
