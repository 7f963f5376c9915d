import Ebnf.Error
import Ebnf.Production
/-! Grammars that are complete: what they hold, when two of them are the same,
and how they are visited and written. -/

namespace Ebnf

/-- The productions of a grammar, each under a key. -/
abbrev ProductionMap := InsertionMap String Production

structure Grammar where
  language : String
  caseSensitive : Bool
  productions : ProductionMap

namespace Grammar

def production? (g : Grammar) (name : String) : Option Production := g.productions.get? name

def toList (g : Grammar) : List Production := g.productions.values

def size (g : Grammar) : Nat := g.productions.size

def isEmpty (g : Grammar) : Bool := g.productions.isEmpty

/-- The description of a production, which may have none. -/
def description (g : Grammar) (name : String) : Except GrammarError (Option String) :=
  match g.production? name with
  | some p => .ok p.description
  | none => .error (.productionNotFound name)

/-- Whether two grammars agree. The order of their productions plays no part. -/
def same (g h : Grammar) : Bool :=
  g.caseSensitive == h.caseSensitive && g.language == h.language && g.productions == h.productions

instance : BEq Grammar := ⟨same⟩

/-- Grammars of one language have one hash. -/
instance : Hashable Grammar := ⟨fun g => hash g.language⟩

/-- Visits the productions in order, up to the first that the visitor fails at. -/
def accept {m : Type → Type} [Monad m] (g : Grammar) (visit : Production → m Unit) : m Unit :=
  g.toList.forM visit

def write (g : Grammar) : Writer Unit := g.accept Production.write

/-- The grammar in a word. -/
def text (g : Grammar) : String := "Grammar\x7b" ++ g.language ++ "\x7d"

end Grammar

end Ebnf
