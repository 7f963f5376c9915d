import Ebnf.Expr
import Ebnf.Expr.Literal
/-! The written form of a body, as the list of the pieces of text it is put
together from. -/

namespace Ebnf.Expr

/-- Whether a part of a sequence is written between parentheses. -/
def needsParens : Expr → Bool
  | alternatives (_ :: _ :: _) => true
  | _ => false

/-- The bounds of a repetition, as written behind its body. -/
def boundsText (min : UInt64) (max : Option UInt64) : String :=
  "\x7b" ++ toString min.toNat ++ "," ++ (max.elim "" fun n => toString n.toNat) ++ "\x7d"

mutual

/-- The pieces a body is written with, in order. -/
def pieces : Expr → List String
  | epsilon => ["()"]
  | literal text => Literal.pieces text
  | characterSet name => ["[:", name, ":]"]
  | nonTerminal name => [name]
  | sequence parts => [" "].intercalate (partPieces parts)
  | alternatives branches => [" | "].intercalate (branchPieces branches)
  | optional body => "[" :: pieces body ++ ["]"]
  | repetition min max body =>
    if min = 0 ∧ max = none then "\x7b" :: pieces body ++ ["\x7d"]
    else "(" :: pieces body ++ [")", boundsText min max]

/-- The pieces of each part of a sequence. -/
def partPieces : List Expr → List (List String)
  | [] => []
  | e :: rest => (if e.needsParens then "(" :: pieces e ++ [")"] else pieces e) :: partPieces rest

/-- The pieces of each branch. -/
def branchPieces : List Expr → List (List String)
  | [] => []
  | e :: rest => pieces e :: branchPieces rest

end

/-- The written form of a body. -/
def text (e : Expr) : String := String.join e.pieces

end Ebnf.Expr
