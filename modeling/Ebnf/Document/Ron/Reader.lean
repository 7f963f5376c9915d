import Ebnf.Document.Cursor
import Ebnf.Document.Ron.Fault
/-! Reading object notation byte by byte: blanks, comments and names. A fault is
placed where reading stopped. -/

namespace Ebnf.Ron

/-- How deep a value may still be nested, and whether a value may stand for
itself where it is optional. -/
structure Context where
  depth : Nat
  implicitSome : Bool

/-- How deep a document may be nested. -/
def nesting : Nat := 128

abbrev Reader := ReaderT Context (ExceptT Fault (StateM Cursor))

namespace Reader

variable {σ α : Type}

def fail (f : Fault) : Reader α := throw f

def attempt (r : Reader α) : Reader (Except Fault α) :=
  tryCatch (.ok <$> r) fun e => pure (.error e)

/-- Reads something one level deeper. -/
def deeper (r : Reader α) : Reader α := fun context =>
  match context.depth with
  | 0 => fail .tooDeep context
  | depth + 1 => r { context with depth := depth }

/-- Takes turns. All but the last one read something, so there are enough of them. -/
def loop (start : σ) (step : σ → Reader (σ ⊕ α)) : Reader α := do
  turns (fail .tooDeep) step (← get).rest start

/-- Reads a word that has to come next. -/
def expect (word : String) (f : Fault) : Reader Unit := do
  if ← Scan.accept word then return else fail f

def byte : Reader Char := do
  match ← Scan.byte? with
  | some c => return c
  | none => fail .endOfText

def peek : Reader Char := do
  match ← Scan.peek with
  | some c => return c
  | none => fail .endOfText

/-- Reads the rest of a block comment, which may hold others. -/
def blockComment : Reader Unit := loop 1 fun level => do
  let _ ← Scan.run fun c => c ≠ '/' ∧ c ≠ '*'
  if ← Scan.accept "/*" then return .inl (level + 1)
  else if ← Scan.accept "*/" then return if level = 1 then .inr () else .inl (level - 1)
  else if (← Scan.byte?).isNone then fail .unclosedComment
  else return .inl level

/-- Reads the rest of a comment, after its first slash. -/
def comment : Reader Unit := do
  match ← byte with
  | '/' => do let _ ← Scan.run (· ≠ '\n')
  | '*' => blockComment
  | c => fail (.unexpectedByte c)

/-- Skips blanks and comments. -/
def blanks : Reader Unit := loop () fun _ => do
  let _ ← Scan.run isBlank
  if ← Scan.accept "/" then
    comment
    return .inl ()
  else return .inr ()

/-- Whether a comma comes next, which is read with the blanks around it. -/
def comma : Reader Bool := do
  blanks
  if ← Scan.accept "," then
    blanks
    return true
  else return false

/-- Reads a name that is not marked as raw. -/
def plainName : Reader String := do
  let c ← get
  if (c.run isNamePart).length < (c.run isRawNamePart).length then
    fail (.rawNameOnly (textOfBytes (c.run isRawNamePart)))
  else return textOfBytes (← Scan.run isNamePart)

/-- Reads a name. A raw string may start with the same letter as a raw name. -/
def name : Reader String := do
  let c ← peek
  let after := (← get).next
  if !isNameStart c then
    if isRawNamePart c then fail (.rawNameOnly (textOfBytes ((← get).run isRawNamePart)))
    else fail .expectedName
  else if c = 'r' then
    match after.peek? with
    | none => fail .endOfText
    | some '"' => fail .expectedName
    | some '#' =>
      if (after.next.peek?.map isRawNamePart).getD false then
        Scan.skip 2
        return textOfBytes (← Scan.run isRawNamePart)
      else fail .expectedName
    | some _ => plainName
  else plainName

end Reader

end Ebnf.Ron
