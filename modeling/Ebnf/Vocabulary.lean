import Ebnf.Document
/-! Productions from elsewhere, to be taken over into a grammar. -/

namespace Ebnf

/-- A vocabulary: what to call it, and its productions if they can be had. -/
structure Vocabulary where
  name : String
  productions : Except GrammarError (List Production)

namespace Vocabulary

/-- Productions tagged with a language, whatever tag they had. -/
def inline (language : String) (productions : List Production) : Vocabulary :=
  ⟨language, .ok (productions.map fun p => { p with vocabulary := some language })⟩

/-- Productions that keep the tags they have. -/
def plain (name : String) (productions : List Production) : Vocabulary := ⟨name, .ok productions⟩

/-- The vocabulary in a document. -/
def file (storage : Storage) (path : String) : Vocabulary :=
  ⟨path, VocabularySpec.toProductions <$> Document.load storage path⟩

end Vocabulary

end Ebnf
