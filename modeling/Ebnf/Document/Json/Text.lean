import Ebnf.Document.Json.Scalar
/-! Documents in JSON. Shape and spelling are checked in one pass, so the first
fault in the text is the one that is told. -/

namespace Ebnf.Json

namespace Reader

variable {σ α : Type}

def optional {α : Type} (r : Reader α) : Reader (Option α) := do
  match ← look with
  | some 'n' => do word "null".toList; return none
  | _ => some <$> r

/-- Whether a list goes on, its comma read. -/
def moreItems (first : Bool) : Reader Bool := do
  match ← look with
  | none => failNext .endOfList
  | some ']' => return false
  | some c =>
    if first then return true
    else if c = ',' then
      skip
      match ← look with
      | none => failNext .endOfValue
      | some ']' => failNext .trailingComma
      | some _ => return true
    else failNext .expectedListEnd

/-- Whether an object goes on, its comma read. -/
def moreMembers (first : Bool) : Reader Bool := do
  match ← look with
  | none => failNext .endOfObject
  | some '\x7d' => return false
  | some c =>
    if first then
      if c = '"' then return true else failNext .keyNotString
    else if c = ',' then
      skip
      match ← look with
      | none => failNext .endOfValue
      | some '"' => return true
      | some '\x7d' => failNext .trailingComma
      | some _ => failNext .keyNotString
    else failNext .expectedObjectEnd

def listEnd : Reader Unit := do
  match ← look with
  | none => failNext .endOfList
  | some ']' => skip
  | some ',' => do
    skip
    if (← look) = some ']' then failNext .trailingComma else failNext .trailingCharacters
  | some _ => failNext .trailingCharacters

def objectEnd : Reader Unit := do
  match ← look with
  | none => failNext .endOfObject
  | some '\x7d' => skip
  | some ',' => failNext .trailingComma
  | some _ => failNext .trailingCharacters

def colon : Reader Unit := do
  match ← look with
  | none => failNext .endOfObject
  | some ':' => skip
  | some _ => failNext .expectedColon

/-- Reads items up to the end of a list. -/
def items {α : Type} (r : Reader α) : Reader (List α) := loop ([], true) fun (found, first) => do
  if ← moreItems first then return .inl ((← r) :: found, false)
  else return .inr found.reverse

def list {α : Type} (r : Reader α) : Reader (List α) := placed do
  match ← look with
  | none => failNext .endOfValue
  | some '[' => closing (enter do skip; items r) listEnd
  | some _ => mistyped "a sequence"

/-- Reads the members of an object into a record. -/
def members (r : Record Reader σ α) : Reader α := do
  let draft ← loop (r.blank, true) fun (draft, first) => do
    if ← moreMembers first then
      skip
      let name ← stringRest
      match r.field? name with
      | none => mismatch (.unknownField name r.names)
      | some f =>
        if f.taken draft then mismatch (.duplicateField name)
        else
          colon
          return .inl ((← f.read) draft, false)
    else return .inr draft
  match r.finish draft with
  | .ok a => return a
  | .error name => mismatch (.missingField name)

/-- Reads the items of a list into the fields of a record, in order. -/
def fieldItems : σ → Bool → List (Field Reader σ) → Reader σ
  | draft, _, [] => return draft
  | draft, first, f :: fs => do
    if ← moreItems first then fieldItems ((← f.read) draft) false fs
    else return draft

def positional (r : Record Reader σ α) : Reader α := do
  match r.finish (← fieldItems r.blank true r.fields) with
  | .ok a => return a
  | .error name => mismatch (.length (r.names.idxOf name) r.title r.fields.length)

def record (r : Record Reader σ α) : Reader α := placed do
  match ← look with
  | none => failNext .endOfValue
  | some '[' => closing (enter do skip; positional r) listEnd
  | some '\x7b' => closing (enter do skip; members r) objectEnd
  | some _ => mistyped r.title.expected

/-- Reads the name of a variant, whose opening quote comes next. -/
def variant (variants : List (Variant Reader α)) : Reader (Payload Reader α) := placed do
  skip
  let name ← stringRest
  match variants.find? (·.name == name) with
  | some v => return v.payload ()
  | none => mismatch (.unknownVariant name (variants.map Variant.name))

def choice (_type : String) (variants : List (Variant Reader α)) : Reader α := do
  match ← look with
  | none => failNext .endOfValue
  | some '"' =>
    match ← variant variants with
    | .bare a => return a
    | .value _ => mismatch (.type .bareVariant "newtype variant")
    | .fields _ => mismatch (.type .bareVariant "struct variant")
  | some '\x7b' =>
    let a ← enter do
      skip
      if !(← moreMembers true) then failNext .expectedValue
      let payload ← variant variants
      colon
      match payload with
      | .bare a => do absent; return a
      | .value r | .fields r => r
    match ← look with
    | none => fail .endOfObject
    | some '\x7d' => do skip; return a
    | some _ => fail .expectedValue
  | some _ => failNext .expectedValue

instance : Source Reader where
  string := string
  boolean := boolean
  natural := natural
  optional := optional
  list := list
  record := record
  choice := choice
  tooDeep := fail .tooDeep

/-- Reads all of a text. -/
def document (r : Reader α) : Reader α := do
  let a ← r
  match ← look with
  | none => return a
  | some _ => failNext .trailingCharacters

end Reader

def parse {α : Type} (r : Reader α) (bytes : List UInt8) : Except Failure α :=
  ((Reader.document r).run nesting |>.run (.ofBytes bytes)).1

end Ebnf.Json
