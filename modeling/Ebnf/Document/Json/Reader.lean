import Ebnf.Document.Cursor
import Ebnf.Document.Json.Fault
/-! Reading JSON byte by byte. A misspelling is placed at the byte that gives it
away, and a value of the wrong shape at the end of what was read of it. -/

namespace Ebnf.Json

/-- Reads from a text, given how many more lists and objects may be opened. -/
abbrev Reader := ReaderT Nat (ExceptT Failure (StateM Cursor))

/-- One less than this many lists and objects may be open at once. -/
def nesting : Nat := 128

namespace Reader

variable {σ α : Type}

def failAt (f : Fault) (c : Cursor) : Reader α := throw ⟨f, some (c.line, c.column)⟩

/-- Fails at what was read last. -/
def fail (f : Fault) : Reader α := do failAt f (← get)

/-- Fails at the byte that comes next. -/
def failNext (f : Fault) : Reader α := do failAt f (← get).next

/-- Fails at a place that the surrounding value decides. -/
def mismatch (m : Mismatch) : Reader α := throw ⟨.mismatch m, none⟩

/-- Places a failure without a place at what was read last. -/
def placed (r : Reader α) : Reader α := tryCatch r fun e =>
  match e.place with
  | none => fail e.fault
  | some _ => throw e

def attempt (r : Reader α) : Reader (Except Failure α) :=
  tryCatch (.ok <$> r) fun e => pure (.error e)

/-- Reads a body and then what closes it, even after a failure in the body. -/
def closing (body : Reader α) (close : Reader Unit) : Reader α := do
  let result ← attempt body
  let ending ← attempt close
  match result, ending with
  | .error e, _ => throw e
  | .ok _, .error e => throw e
  | .ok a, .ok () => return a

/-- Opens a list or an object, unless too many are open. -/
def enter (r : Reader α) : Reader α := fun depth =>
  if depth ≤ 1 then failNext .tooDeep depth else r (depth - 1)

/-- Takes turns. All but the last one read something, so there are enough of them. -/
def loop (start : σ) (step : σ → Reader (σ ⊕ α)) : Reader α := do
  turns (fail .tooDeep) step (← get).rest start

/-- The next byte after blanks, which stays unread. -/
def look : Reader (Option Char) := do
  let _ ← Scan.run fun c => c = ' ' ∨ c = '\n' ∨ c = '\t' ∨ c = '\r'
  Scan.peek

def skip : Reader Unit := Scan.skip 1

/-- Reads a known word letter by letter. -/
def word : List Char → Reader Unit
  | [] => return
  | c :: rest => do
    match ← Scan.byte? with
    | none => fail .endOfValue
    | some b => if b = c then word rest else fail .expectedWord

end Reader

end Ebnf.Json
