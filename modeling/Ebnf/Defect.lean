import Ebnf.Text.Lines
/-! Reports of a defect in the program itself, as opposed to one in its input:
a banner, the place, and the message line by line behind a margin of stars. -/

namespace Ebnf

/-- A broken assumption and where it was noticed. -/
structure Defect where
  location : String
  message : String
  deriving DecidableEq, Repr

namespace Defect

/-- The report of a defect. -/
def report (d : Defect) : String :=
  "\n*** Bug in grammarkit."
    ++ "\n*** Location:"
    ++ "\n***   " ++ d.location
    ++ "\n*** Error message:"
    ++ String.join ((lines d.message).map ("\n***   " ++ ·))
    ++ "\n"

/-- The value that ought to be there. `message` says what was expected, if
anything better is known than that a value was. -/
def expectSome {α : Type} (location : String) (message : Option String) : Option α → Except Defect α
  | some a => .ok a
  | none => .error ⟨location, message.getD "Tried to unwrap a \x60None\x60 value"⟩

/-- The result that ought to be there. The failure found in its place is quoted,
under `message` if there is one. -/
def expectOk {α : Type} (location : String) (message : Option String) : Except String α → Except Defect α
  | .ok a => .ok a
  | .error e => .error ⟨location, match message with
    | some m => m ++ "\n" ++ e
    | none => e⟩

end Defect

end Ebnf
