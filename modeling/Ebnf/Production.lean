import Ebnf.Expr.Writing
import Ebnf.Text.Sink
/-! Productions and their written form: a rule on a line of its own, under its
description if it has one. -/

namespace Ebnf

/-- A named body. `vocabulary` is the language the production comes from. -/
structure Production where
  name : String
  description : Option String
  vocabulary : Option String
  body : Expr
  deriving DecidableEq, Repr, Inhabited

namespace Production

/-- The production tagged with a language, unless it has a tag already. -/
def tagged (p : Production) (language : String) : Production :=
  { p with vocabulary := some (p.vocabulary.getD language) }

def descriptionPieces : Option String → List String
  | none => []
  | some d => ["(* ", d, " *)\n"]

/-- The pieces a production is written with, in order. -/
def pieces (p : Production) : List String :=
  descriptionPieces p.description ++ [p.name, " ::= "] ++ p.body.pieces ++ [" ;\n"]

def text (p : Production) : String := String.join p.pieces

/-- Writes a production, its description in front of it, by way of `put`. -/
def writeBy {m : Type → Type} [Monad m] (put : String → m Unit) (p : Production) : m Unit := do
  if let some d := p.description then
    put "(* "
    put d
    put " *)\n"
  put p.name
  put " ::= "
  p.body.writeBy put
  put " ;\n"

def write (p : Production) : Writer Unit := p.writeBy Writer.put

end Production

end Ebnf
