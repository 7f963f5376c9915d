/-! A place in the bytes of a document, with the line and the column it is in.
Columns count bytes. -/

namespace Ebnf

/-- What is left of a document, after `line` full lines and `column` bytes more. -/
structure Cursor where
  rest : List UInt8
  line : Nat
  column : Nat
  deriving DecidableEq, Repr

namespace Cursor

def ofBytes (bytes : List UInt8) : Cursor := ⟨bytes, 0, 0⟩

/-- The next byte, as the character with that code. -/
def peek? (c : Cursor) : Option Char := c.rest.head?.map Char.ofUInt8

/-- The place after the next byte, or the same place if there is none. -/
def next (c : Cursor) : Cursor :=
  match c.rest with
  | [] => c
  | b :: rest => if b = 10 then ⟨rest, c.line + 1, 0⟩ else ⟨rest, c.line, c.column + 1⟩

def skip : Nat → Cursor → Cursor
  | 0, c => c
  | n + 1, c => skip n c.next

/-- The bytes up to the first one that fails a test. -/
def run (p : Char → Bool) (c : Cursor) : List UInt8 := c.rest.takeWhile fun b => p (.ofUInt8 b)

/-- Whether the document goes on with `word`. -/
def startsWith (word : String) (c : Cursor) : Bool := word.toUTF8.data.toList.isPrefixOf c.rest

end Cursor

/-- A computation that reads on from a place in a document. -/
abbrev Scan := StateM Cursor

namespace Scan

def peek : Scan (Option Char) := Cursor.peek? <$> get

/-- Reads one byte, if one is left. -/
def byte? : Scan (Option Char) := modifyGet fun c => (c.peek?, c.next)

def skip (n : Nat) : Scan Unit := modify (Cursor.skip n)

/-- Reads the bytes up to the first one that fails a test. -/
def run (p : Char → Bool) : Scan (List UInt8) :=
  modifyGet fun c => (c.run p, c.skip (c.run p).length)

/-- Reads `word` if it comes next. -/
def accept (word : String) : Scan Bool :=
  modifyGet fun c => if c.startsWith word then (true, c.skip word.utf8ByteSize) else (false, c)

end Scan

/-- The text that bytes encode. -/
def textOfBytes (bytes : List UInt8) : String := (String.fromUTF8? ⟨bytes.toArray⟩).getD ""

/-- Takes turns until a step ends with a result, at most one more of them than
there are bytes in a list. -/
def turns {m : Type → Type} [Monad m] {σ α : Type} (stop : m α) (step : σ → m (σ ⊕ α)) :
    List UInt8 → σ → m α
  | [], s => do
    match ← step s with
    | .inl _ => stop
    | .inr a => pure a
  | _ :: rest, s => do
    match ← step s with
    | .inl s => turns stop step rest s
    | .inr a => pure a

end Ebnf
