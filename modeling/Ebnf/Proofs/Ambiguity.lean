import Ebnf.Proofs.Reading
import Ebnf.Proofs.Regrouping
/-! When a text determines the language of what was written: for all bodies that
read back with the language they had, and for no others. A choice in disguise
loses its brackets in a sequence, and another body then has the same text. -/

namespace Ebnf.Expr

/-- Reading the body back gives its language. -/
def Faithful (e : Expr) : Prop := (ofText e.text).language = e.language

theorem faithful_of_exposed {e : Expr} (hw : e.wellFormed) (he : e.exposed) : e.Faithful := by
  rw [Faithful, ofText_text hw]
  exact (kept_of_exposed hw he).language_eq

theorem sound_ofText {e : Expr} (h : e.wellFormed) : (ofText e.text).Sound := by
  rw [ofText_text h]
  exact sound_toExpr_layout h

theorem text_ofText {e : Expr} (h : e.wellFormed) : (ofText e.text).text = e.text := by
  rw [ofText_text h, text_layout h]

/-- Bodies that read back have the same language if they have the same text. All
do where no part of a sequence is a choice in disguise, and one that does not has
its text in common with such a body of another language. -/
theorem text_determines_language {e : Expr} (hw : e.wellFormed) :
    (e.exposed → e.Faithful) ∧
    (e.Faithful → ∀ f : Expr, f.Faithful → f.text = e.text → f.language = e.language) ∧
    (¬ e.Faithful →
      ∃ f : Expr, f.wellFormed ∧ f.exposed ∧ f.text = e.text ∧ f.language ≠ e.language) := by
  refine ⟨faithful_of_exposed hw, fun he f hf htext => ?_, fun hno => ?_⟩
  · calc
      f.language = (ofText f.text).language := hf.symm
      _ = (ofText e.text).language := by rw [htext]
      _ = e.language := he
  · -- the body that is read back has the text, and `hno` says that its language is another one
    have hsound := sound_ofText hw
    exact ⟨ofText e.text, hsound.wellFormed, hsound.exposed, text_ofText hw, hno⟩

/-- A choice in a sequence, where it has its parentheses, next to every other kind of bracket. -/
def choiceInSequence : Expr :=
  sequence [alternatives [nonTerminal "a", sequence [literal "it's \"q\"",
    optional (alternatives [nonTerminal "b", epsilon])]], repetition 2 (some 10) (characterSet "digit")]

theorem text_determines_choiceInSequence : choiceInSequence.wellFormed ∧ choiceInSequence.exposed ∧
    choiceInSequence.text = "(a | 'it' \"'\" 's \"q\"' [b | ()]) ([:digit:])\x7b2,10\x7d" ∧
    ∀ f : Expr, f.Faithful → f.text = choiceInSequence.text → f.language = choiceInSequence.language := by
  have hwellFormed : choiceInSequence.wellFormed := by decide
  have hexposed : choiceInSequence.exposed := by decide
  obtain ⟨hfaithful, hsame, -⟩ := text_determines_language hwellFormed
  exact ⟨hwellFormed, hexposed, by decide, hsame (hfaithful hexposed)⟩

/-- A choice in a sequence, with a choice of one branch around it. -/
def wrappedChoice : Expr :=
  sequence [alternatives [alternatives [nonTerminal "a", nonTerminal "b"]], nonTerminal "c"]

/-- What the text of `wrappedChoice` says. -/
def bareChoice : Expr := alternatives [nonTerminal "a", sequence [nonTerminal "b", nonTerminal "c"]]

theorem mem_language_bareChoice : [Symbol.rule "a"] ∈ bareChoice.language := by
  rw [bareChoice, language, union, Language.mem_add]
  exact .inl rfl

theorem length_of_mem_language_wrappedChoice {word : List Symbol} (h : word ∈ wrappedChoice.language) :
    word.length = 2 := by
  simp only [wrappedChoice, language, product, union, mul_one, add_zero, Language.mem_mul,
    Language.mem_add] at h
  obtain ⟨first, hfirst, second, rfl, rfl⟩ := h
  rcases hfirst with rfl | rfl <;> rfl

theorem same_text_wrappedChoice_bareChoice : wrappedChoice.wellFormed ∧ bareChoice.wellFormed ∧
    wrappedChoice.text = bareChoice.text ∧ wrappedChoice.language ≠ bareChoice.language := by
  refine ⟨by decide, by decide, by decide, fun h => ?_⟩
  have hlength := length_of_mem_language_wrappedChoice (h ▸ mem_language_bareChoice)
  cases hlength

end Ebnf.Expr
