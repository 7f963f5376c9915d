import Ebnf.Document.Mismatch
/-! What can be wrong with a document in JSON, and where. -/

namespace Ebnf.Json

/-- What can be wrong with a text. -/
inductive Fault
  | endOfValue
  | endOfList
  | endOfObject
  | endOfString
  | expectedValue
  | expectedWord
  | expectedColon
  | expectedListEnd
  | expectedObjectEnd
  | keyNotString
  | invalidNumber
  | outOfRange
  | invalidEscape
  | loneSurrogate
  | missingSurrogate
  | controlCharacter
  | trailingComma
  | trailingCharacters
  | tooDeep
  | mismatch (m : Mismatch)
  deriving DecidableEq, Repr

def Fault.message : Fault → String
  | endOfValue => "EOF while parsing a value"
  | endOfList => "EOF while parsing a list"
  | endOfObject => "EOF while parsing an object"
  | endOfString => "EOF while parsing a string"
  | expectedValue => "expected value"
  | expectedWord => "expected ident"
  | expectedColon => "expected \x60:\x60"
  | expectedListEnd => "expected \x60,\x60 or \x60]\x60"
  | expectedObjectEnd => "expected \x60,\x60 or \x60\x7d\x60"
  | keyNotString => "key must be a string"
  | invalidNumber => "invalid number"
  | outOfRange => "number out of range"
  | invalidEscape => "invalid escape"
  | loneSurrogate => "lone leading surrogate in hex escape"
  | missingSurrogate => "unexpected end of hex escape"
  | controlCharacter => "control character (\\u0000-\\u001F) found while parsing a string"
  | trailingComma => "trailing comma"
  | trailingCharacters => "trailing characters"
  | tooDeep => "recursion limit exceeded"
  | mismatch m => m.message

/-- A fault, and the line and column reached when it showed, once they are known. -/
structure Failure where
  fault : Fault
  place : Option (Nat × Nat)
  deriving DecidableEq, Repr

/-- A failure with the line and the column counted from one, as far as they are known. -/
def Failure.message (e : Failure) : String :=
  e.fault.message ++ e.place.elim "" fun (line, column) =>
    " at line " ++ toString (line + 1) ++ " column " ++ toString column

end Ebnf.Json
