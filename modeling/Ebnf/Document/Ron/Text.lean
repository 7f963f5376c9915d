import Ebnf.Document.Ron.Scalar
import Ebnf.Document.Source
/-! Documents in object notation: records in parentheses under optional names,
bare words for variants, commas that may trail. Shape and spelling are checked
in one pass. -/

namespace Ebnf.Ron

namespace Reader

variable {σ α : Type}

/-- Reads a value in parentheses that were opened, up to their end. -/
def enclosed (r : Reader α) : Reader α := do
  blanks
  let a ← deeper r
  let _ ← comma
  expect ")" .expectedClosing
  return a

def optional (r : Reader α) : Reader (Option α) := do
  if ← Scan.accept "None" then return none
  let explicit ← if ← Scan.accept "Some" then do blanks; Scan.accept "(" else pure false
  if explicit then some <$> enclosed r
  else if (← read).implicitSome then some <$> deeper r
  else fail .expectedOption

/-- Whether there is more before `close`. -/
def moreItems (close : Char) (afterComma : Bool) : Reader Bool := do
  blanks
  if (← peek) = close then return false
  else if afterComma then return true
  else fail .expectedComma

def items (r : Reader α) : Reader (List α) := loop ([], true) fun (found, afterComma) => do
  if ← moreItems ']' afterComma then
    let a ← deeper r
    return .inl (a :: found, ← comma)
  else return .inr found.reverse

def list (r : Reader α) : Reader (List α) := do
  expect "[" .expectedList
  let found ← deeper (items r)
  blanks
  expect "]" .expectedListEnd
  return found

/-- The name a record goes by in messages about its fields. -/
def shortTitle : Title → String
  | .named n => n
  | .variant _ n => n

/-- Reads the name of a field that may come now. -/
def fieldName (r : Record Reader σ α) (draft : σ) : Reader (Field Reader σ) := do
  let n ← name
  match r.field? n with
  | none => fail (.unknownField n (shortTitle r.title) r.names)
  | some f => if f.taken draft then fail (.duplicateField n (shortTitle r.title)) else return f

def members (r : Record Reader σ α) : Reader α := do
  let draft ← loop (r.blank, true) fun (draft, afterComma) => do
    if ← moreItems ')' afterComma then
      let f ← deeper (fieldName r draft)
      blanks
      expect ":" .expectedColon
      blanks
      let set ← deeper f.read
      return .inl (set draft, ← comma)
    else return .inr draft
  match r.finish draft with
  | .ok a => return a
  | .error n => fail (.missingField n (shortTitle r.title))

/-- Reads the name of a record, if one is written. -/
def recordName (expected : String) : Reader Unit := do
  if ((← get).peek?.map isNamePart).getD false then
    match ← attempt name with
    | .error _ => fail (.expectedOpeningOf expected)
    | .ok found => if found ≠ expected then fail (.expectedRecord expected found)

def record (r : Record Reader σ α) : Reader α := do
  match r.title with
  | .named n => do
    recordName n
    blanks
    expect "(" (.expectedOpeningOf n)
  | .variant _ _ => do
    blanks
    expect "(" .expectedOpening
  let a ← deeper (members r)
  blanks
  expect ")" .expectedClosing
  return a

/-- Reads the name of a variant. -/
def variant (type : String) (variants : List (Variant Reader α)) : Reader (Payload Reader α) := do
  let n ← name
  match variants.find? (·.name == n) with
  | some v => return v.payload ()
  | none => fail (.unknownVariant n type (variants.map Variant.name))

def choice (type : String) (variants : List (Variant Reader α)) : Reader α := deeper do
  blanks
  match ← deeper (variant type variants) with
  | .bare a => return a
  | .value r => do
    blanks
    expect "(" .expectedOpening
    enclosed r
  | .fields r => r

instance : Source Reader where
  string := string
  boolean := boolean
  natural := natural
  optional := optional
  list := list
  record := record
  choice := choice
  tooDeep := fail .tooDeep

/-- Reads words one after the other, each where it comes next, and says whether
all of them came. The first failure among the blanks between them counts. -/
def acceptAll : List String → Reader Bool
  | [] => return true
  | word :: rest => do
    let first ← attempt do
      if ← Scan.accept word then
        blanks
        return true
      else return false
    let others ← attempt (acceptAll rest)
    match first, others with
    | .error f, _ => fail f
    | .ok _, .error f => fail f
    | .ok a, .ok b => return a && b

/-- Reads the names of extensions: whether one of them lets values stand for
themselves where they are optional. The others change nothing here. -/
def extensions : Reader Bool := loop false fun implicitSome => do
  let n ← name
  if n ≠ "implicit_some" ∧ n ≠ "unwrap_newtypes" ∧ n ≠ "unwrap_variant_newtypes" then
    fail (.unknownExtension n)
  let implicitSome := implicitSome || n == "implicit_some"
  let afterComma ← comma
  let another := ((← get).peek?.map isNamePart).getD false
  if another then
    if afterComma then return .inl implicitSome else fail .expectedComma
  else return .inr implicitSome

/-- Reads the attributes at the head of a document. -/
def header : Reader Bool := do
  blanks
  loop false fun implicitSome => do
    if (← Scan.peek) ≠ some '#' then return .inr implicitSome
    if !(← acceptAll ["#", "!", "[", "enable", "("]) then fail .expectedAttribute
    blanks
    let found ← extensions
    blanks
    if !(← acceptAll [")", "]"]) then fail .expectedAttributeEnd
    blanks
    return .inl (implicitSome || found)

/-- Reads all of a text. -/
def document (r : Reader α) : Reader α := do
  let implicitSome ← header
  let a ← withReader (fun context => { context with implicitSome }) r
  blanks
  if (← Scan.peek).isNone then return a else fail .trailingCharacters

end Reader

/-- Reads a text, or tells what is wrong with it, and where. -/
def parse {α : Type} (r : Reader α) (bytes : List UInt8) : Except (Fault × Cursor) α :=
  match (Reader.document r).run ⟨nesting, false⟩ |>.run (.ofBytes bytes) with
  | (.ok a, _) => .ok a
  | (.error f, c) => .error (f, c)

end Ebnf.Ron
