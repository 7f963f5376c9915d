import Ebnf.Text.Quoted
import Ebnf.Document.Source
/-! Values that are well written but of the wrong shape, and how that is told. -/

namespace Ebnf

/-- What was found where something else was expected. -/
inductive Found
  | null
  | boolean (value : Bool)
  | integer (value : Int)
  /-- A number that is no integer, or too large for one. -/
  | decimal (text : String)
  | string (text : String)
  | list
  | object
  | bareVariant
  deriving DecidableEq, Repr

def Found.text : Found → String
  | null => "null"
  | boolean b => "boolean \x60" ++ (if b then "true" else "false") ++ "\x60"
  | integer n => "integer \x60" ++ toString n ++ "\x60"
  | decimal text => "floating point \x60" ++ text ++ "\x60"
  | string s => "string " ++ Quoted.string s
  | list => "sequence"
  | object => "map"
  | bareVariant => "unit variant"

/-- Names to choose from, each between backticks. -/
def oneOf (names : List String) : String :=
  let quoted := names.map fun n => "\x60" ++ n ++ "\x60"
  match quoted with
  | [a] => a
  | [a, b] => a ++ " or " ++ b
  | _ => "one of " ++ ", ".intercalate quoted

def Title.expected : Title → String
  | named name => "struct " ++ name
  | variant type name => "struct variant " ++ type ++ "::" ++ name

/-- A value that does not fit the shape it should have. -/
inductive Mismatch
  | type (found : Found) (expected : String)
  | value (found : Found) (expected : String)
  /-- A list ends before element `index`, the first one that may not be left out. -/
  | length (index : Nat) (title : Title) (size : Nat)
  | missingField (name : String)
  | duplicateField (name : String)
  | unknownField (name : String) (known : List String)
  | unknownVariant (name : String) (known : List String)
  | tooDeep
  deriving DecidableEq, Repr

namespace Mismatch

def message : Mismatch → String
  | type found expected => "invalid type: " ++ found.text ++ ", expected " ++ expected
  | value found expected => "invalid value: " ++ found.text ++ ", expected " ++ expected
  | length index title size =>
    "invalid length " ++ toString index ++ ", expected " ++ title.expected ++ " with "
      ++ toString size ++ " elements"
  | missingField name => "missing field \x60" ++ name ++ "\x60"
  | duplicateField name => "duplicate field \x60" ++ name ++ "\x60"
  | unknownField name known =>
    "unknown field \x60" ++ name ++ "\x60, expected " ++ oneOf known
  | unknownVariant name known =>
    "unknown variant \x60" ++ name ++ "\x60, expected " ++ oneOf known
  | tooDeep => "recursion limit exceeded"

end Mismatch

end Ebnf
