import Ebnf.Document.Source
import Ebnf.Production
/-! The documents: grammars and vocabularies, and the shape in which they are
written down. -/

namespace Ebnf

structure ProductionSpec where
  name : String
  description : Option String
  body : Expr
  deriving DecidableEq, Repr

/-- A grammar document. The paths of its vocabularies are relative to its own. -/
structure GrammarSpec where
  language : String
  caseSensitive : Bool
  vocabularies : List String
  productions : List ProductionSpec
  deriving DecidableEq, Repr

/-- A vocabulary document: productions that grammars can take over. -/
structure VocabularySpec where
  language : String
  productions : List ProductionSpec
  deriving DecidableEq, Repr

def ProductionSpec.toProduction (s : ProductionSpec) (vocabulary : Option String) : Production :=
  ⟨s.name, s.description, vocabulary, s.body⟩

/-- The productions of a vocabulary, tagged with its language. -/
def VocabularySpec.toProductions (s : VocabularySpec) : List Production :=
  s.productions.map (·.toProduction (some s.language))

variable {m : Type → Type} [Monad m] [Source m]

namespace Expr

/-- The fields of a repetition read so far. -/
structure RepetitionDraft where
  min : Option UInt64
  max : Option (Option UInt64)
  expr : Option Expr

/-- The fields of a repetition, given how to read its body. -/
def repetitionRecord (body : m Expr) : Record m RepetitionDraft Expr where
  title := .variant "Expr" "Repetition"
  blank := ⟨none, none, none⟩
  fields := [
    .of "min" (·.min) (fun v d => { d with min := some v }) Source.natural,
    .of "max" (·.max) (fun v d => { d with max := some v }) (Source.optional Source.natural),
    .of "expr" (·.expr) (fun v d => { d with expr := some v }) body]
  finish d := do
    let min ← Field.need "min" d.min
    let expr ← Field.need "expr" d.expr
    return .repetition min (d.max.getD none) expr

/-- Reads a body nested at most `depth` deep. -/
def read : Nat → m Expr
  | 0 => Source.tooDeep
  | depth + 1 => Source.choice "Expr" [
    ⟨"Epsilon", fun _ => .bare .epsilon⟩,
    ⟨"Literal", fun _ => .value (.literal <$> Source.string)⟩,
    ⟨"CharacterSet", fun _ => .value (.characterSet <$> Source.string)⟩,
    ⟨"NonTerminal", fun _ => .value (.nonTerminal <$> Source.string)⟩,
    ⟨"Sequence", fun _ => .value (.sequence <$> Source.list (read depth))⟩,
    ⟨"Alternatives", fun _ => .value (.alternatives <$> Source.list (read depth))⟩,
    ⟨"Optional", fun _ => .value (.optional <$> read depth)⟩,
    ⟨"Repetition", fun _ => .fields (Source.record (repetitionRecord (read depth)))⟩]

end Expr

namespace ProductionSpec

structure Draft where
  name : Option String
  description : Option (Option String)
  body : Option Expr

/-- The fields of a production, given how to read its body. -/
def recordOf (body : m Expr) : Record m Draft ProductionSpec where
  title := .named "ProductionSpec"
  blank := ⟨none, none, none⟩
  fields := [
    .of "name" (·.name) (fun v d => { d with name := some v }) Source.string,
    .of "description" (·.description) (fun v d => { d with description := some v })
      (Source.optional Source.string),
    .of "body" (·.body) (fun v d => { d with body := some v }) body]
  finish d := do
    let name ← Field.need "name" d.name
    let body ← Field.need "body" d.body
    return ⟨name, d.description.getD none, body⟩

def read (depth : Nat) : m ProductionSpec := Source.record (recordOf (Expr.read depth))

end ProductionSpec

namespace GrammarSpec

structure Draft where
  language : Option String
  caseSensitive : Option Bool
  vocabularies : Option (List String)
  productions : Option (List ProductionSpec)

/-- The fields of a grammar, given how to read its productions. -/
def recordOf (productions : m (List ProductionSpec)) : Record m Draft GrammarSpec where
  title := .named "GrammarSpec"
  blank := ⟨none, none, none, none⟩
  fields := [
    .of "language" (·.language) (fun v d => { d with language := some v }) Source.string,
    .of "case_sensitive" (·.caseSensitive) (fun v d => { d with caseSensitive := some v })
      Source.boolean,
    .of "vocabularies" (·.vocabularies) (fun v d => { d with vocabularies := some v })
      (Source.list Source.string),
    .of "productions" (·.productions) (fun v d => { d with productions := some v }) productions]
  finish d := do
    let language ← Field.need "language" d.language
    let productions ← Field.need "productions" d.productions
    return ⟨language, d.caseSensitive.getD true, d.vocabularies.getD [], productions⟩

def read (depth : Nat) : m GrammarSpec :=
  Source.record (recordOf (Source.list (ProductionSpec.read depth)))

end GrammarSpec

namespace VocabularySpec

structure Draft where
  language : Option String
  productions : Option (List ProductionSpec)

/-- The fields of a vocabulary, given how to read its productions. -/
def recordOf (productions : m (List ProductionSpec)) : Record m Draft VocabularySpec where
  title := .named "VocabularySpec"
  blank := ⟨none, none⟩
  fields := [
    .of "language" (·.language) (fun v d => { d with language := some v }) Source.string,
    .of "productions" (·.productions) (fun v d => { d with productions := some v }) productions]
  finish d := do
    let language ← Field.need "language" d.language
    let productions ← Field.need "productions" d.productions
    return ⟨language, productions⟩

def read (depth : Nat) : m VocabularySpec :=
  Source.record (recordOf (Source.list (ProductionSpec.read depth)))

end VocabularySpec

end Ebnf
