/-! The lines of a text. A line ends at a line feed, and a carriage return right
before that line feed belongs to the ending. A last line with nothing in it
does not count, so a text and the same text ended by a line feed have the same
lines. -/

namespace Ebnf

/-- The lines of a text as lists of characters. -/
def splitLines : List Char → List (List Char)
  | [] => []
  | '\n' :: rest => [] :: splitLines rest
  | '\r' :: '\n' :: rest => [] :: splitLines rest
  | c :: rest =>
    match splitLines rest with
    | [] => [[c]]
    | line :: more => (c :: line) :: more

/-- The lines of `text`, without their endings. -/
def lines (text : String) : List String := (splitLines text.toList).map String.ofList

end Ebnf
