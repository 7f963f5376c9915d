/-! How a literal is written. There is no escape inside quotes, so a text with
both quote characters in it is cut up: every single quote stands alone between
double quotes, and what lies between two of them goes between single quotes. -/

namespace Ebnf.Literal

/-- Cuts a text at its single quotes, each of which becomes a segment of its own. -/
def cut : List Char → List (List Char)
  | [] => []
  | c :: rest =>
    match cut rest with
    | [] => [[c]]
    | segment :: more =>
      if c = '\x27' ∨ '\x27' ∈ segment then [c] :: segment :: more else (c :: segment) :: more

/-- The parts of a text that are quoted one by one. -/
def segments (text : List Char) : List (List Char) :=
  if '\x27' ∈ text ∧ '"' ∈ text then cut text else [text]

/-- A text between quotes that do not occur in it. -/
def quote (segment : List Char) : String :=
  let mark := if '\x27' ∈ segment then "\"" else "'"
  mark ++ String.ofList segment ++ mark

/-- The quoted parts of a literal, in order, with the blanks between them. -/
def pieces (text : String) : List String :=
  ((segments text.toList).map quote).intersperse " "

end Ebnf.Literal
