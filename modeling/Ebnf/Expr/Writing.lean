import Ebnf.Expr.Rendering
/-! How a body is written into a place that takes one text after the other. What
`put` does with a text is left open: it may refuse it, and the monad it works in
says what becomes of the rest of the work then. -/

namespace Ebnf

variable {m : Type → Type} [Monad m] (put : String → m Unit)

/-- Does one work after the other, and puts `mark` between any two of them. -/
def putBetween (mark : String) (works : List (m Unit)) : m Unit :=
  (works.intersperse (put mark)).forM id

/-- Writes the quoted parts of a literal. -/
def Literal.writeBy (text : String) : m Unit :=
  putBetween put " " ((segments text.toList).map fun segment => put (quote segment))

namespace Expr

mutual

/-- Writes a body. -/
def writeBy : Expr → m Unit
  | epsilon => put "()"
  | literal text => Literal.writeBy put text
  | characterSet name => do
    put "[:"
    put name
    put ":]"
  | nonTerminal name => put name
  | sequence parts => putBetween put " " (writeParts parts)
  | alternatives branches => putBetween put " | " (writeBranches branches)
  | optional body => do
    put "["
    writeBy body
    put "]"
  | repetition min max body =>
    if min = 0 ∧ max = none then do
      put "\x7b"
      writeBy body
      put "\x7d"
    else do
      put "("
      writeBy body
      put ")"
      put (boundsText min max)

/-- The work of writing each part of a sequence. -/
def writeParts : List Expr → List (m Unit)
  | [] => []
  | e :: rest =>
    (if e.needsParens then do
      put "("
      writeBy e
      put ")"
    else writeBy e) :: writeParts rest

/-- The work of writing each branch. -/
def writeBranches : List Expr → List (m Unit)
  | [] => []
  | e :: rest => writeBy e :: writeBranches rest

end

end Expr

end Ebnf
