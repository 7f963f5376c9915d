import Ebnf.Text.Hidden
/-! Text between quotes for messages. Backslashes, the quote itself and line
controls are escaped by a letter, and other characters without a look of their
own by their number. -/

namespace Ebnf.Quoted

/-- A character as it is written between two `mark`s. -/
def escape (mark c : Char) : List Char :=
  if c = '\x00' then ['\\', '0']
  else if c = '\t' then ['\\', 't']
  else if c = '\n' then ['\\', 'n']
  else if c = '\r' then ['\\', 'r']
  else if c = '\\' ∨ c = mark then ['\\', c]
  else if isHidden c then ['\\', 'u', '\x7b'] ++ Nat.toDigits 16 c.toNat ++ ['\x7d']
  else [c]

def encode (mark : Char) (text : List Char) : String :=
  String.ofList (mark :: text.flatMap (escape mark) ++ [mark])

/-- A text between double quotes. -/
def string (text : String) : String := encode '"' text.toList

/-- A character between single quotes. -/
def char (c : Char) : String := encode '\x27' [c]

end Ebnf.Quoted
