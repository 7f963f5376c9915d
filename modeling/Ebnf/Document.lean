import Ebnf.Document.Json.Text
import Ebnf.Document.Ron.Text
import Ebnf.Document.Spec
import Ebnf.FileTree
/-! Documents as files. The extension of the path says how one is written. -/

namespace Ebnf

namespace Document

inductive Format
  | ron
  | json
  deriving DecidableEq, Repr

def Format.ofPath? (path : String) : Option Format :=
  match Path.extension? path with
  | some "ron" => some .ron
  | some "json" => some .json
  | _ => none

/-- A kind of document. -/
class Kind (α : Type) where
  read {m : Type → Type} [Monad m] [Source m] : Nat → m α

instance : Kind GrammarSpec := ⟨GrammarSpec.read⟩

instance : Kind VocabularySpec := ⟨VocabularySpec.read⟩

/-- Deeper than any format lets a body be nested. -/
def depth : Nat := max Json.nesting Ron.nesting + 2

def place? : Nat × Nat → Option Place
  | (_, 0) => none
  | (line, column + 1) => some ⟨line, column⟩

variable {α : Type} [Kind α]

/-- Reads the text of the document at `path`. -/
def parse (format : Format) (path text : String) : Except GrammarError α :=
  let bytes := text.toUTF8.data.toList
  match format with
  | .ron =>
    match Ron.parse (Kind.read depth) bytes with
    | .ok a => .ok a
    | .error (f, c) => .error (.malformed path (some ⟨c.line, c.column⟩) f.message)
  | .json =>
    match Json.parse (Kind.read depth) bytes with
    | .ok a => .ok a
    | .error e => .error (.malformed path (e.place.bind place?) e.message)

/-- Reads the document at `path`. -/
def load (storage : Storage) (path : String) : Except GrammarError α :=
  match Format.ofPath? path with
  | none => .error (.unknownFormat path)
  | some format =>
    match storage path with
    | .error cause => .error (.unreadable path cause)
    | .ok text => parse format path text

end Document

end Ebnf
