import Ebnf.Expr.Rendering
/-! Induction over bodies, with a hypothesis for every member of a list, and what
is asked of a body before its text is read back. -/

namespace Ebnf

/-- The letters a name may start with. No script is told apart beyond ASCII. -/
def isLetter (c : Char) : Bool := c.isAlpha || 128 ≤ c.toNat

def inName (c : Char) : Bool := isLetter c || c.isDigit || c == '_'

/-- A letter, followed by letters, digits and underscores. -/
def isIdentifier (name : String) : Bool :=
  match name.toList with
  | [] => false
  | c :: rest => isLetter c && rest.all inName

theorem exists_of_isIdentifier {name : String} (h : isIdentifier name) :
    ∃ c rest, name = String.ofList (c :: rest) ∧ isLetter c ∧ ∀ d ∈ rest, inName d := by
  unfold isIdentifier at h
  split at h
  · cases h
  · next c rest heq =>
    simp only [Bool.and_eq_true, List.all_eq_true] at h
    exact ⟨c, rest, by rw [← heq, String.ofList_toList], h⟩

theorem inName_of_isLetter {c : Char} (h : isLetter c) : inName c := by
  simp [inName, h]

theorem not_mem_identifier {name : String} (h : isIdentifier name) {c : Char}
    (hc : inName c = false) : c ∉ name.toList := by
  obtain ⟨d, rest, rfl, hd, hrest⟩ := exists_of_isIdentifier h
  rw [String.toList_ofList, List.mem_cons, not_or]
  constructor
  · rintro rfl
    rw [inName_of_isLetter hd] at hc
    cases hc
  · intro hmem
    rw [hrest c hmem] at hc
    cases hc

namespace Expr

@[elab_as_elim, induction_eliminator]
theorem induct {motive : Expr → Prop} (epsilon : motive epsilon)
    (literal : ∀ text, motive (literal text))
    (characterSet : ∀ name, motive (characterSet name))
    (nonTerminal : ∀ name, motive (nonTerminal name))
    (sequence : ∀ parts, (∀ e ∈ parts, motive e) → motive (sequence parts))
    (alternatives : ∀ branches, (∀ e ∈ branches, motive e) → motive (alternatives branches))
    (optional : ∀ body, motive body → motive (optional body))
    (repetition : ∀ min max body, motive body → motive (repetition min max body)) :
    ∀ e, motive e
  | .epsilon => epsilon
  | .literal text => literal text
  | .characterSet name => characterSet name
  | .nonTerminal name => nonTerminal name
  | .sequence parts => sequence parts fun e _ => induct epsilon literal characterSet nonTerminal
      sequence alternatives optional repetition e
  | .alternatives branches => alternatives branches fun e _ => induct epsilon literal characterSet
      nonTerminal sequence alternatives optional repetition e
  | .optional body => optional body (induct epsilon literal characterSet nonTerminal
      sequence alternatives optional repetition body)
  | .repetition min max body => repetition min max body (induct epsilon literal characterSet
      nonTerminal sequence alternatives optional repetition body)

mutual

/-- Whether a test holds of a body and of everything in it. -/
def everywhere (p : Expr → Bool) : Expr → Bool
  | sequence parts => p (sequence parts) && everywhereIn p parts
  | alternatives branches => p (alternatives branches) && everywhereIn p branches
  | optional body => p (optional body) && everywhere p body
  | repetition min max body => p (repetition min max body) && everywhere p body
  | e => p e

def everywhereIn (p : Expr → Bool) : List Expr → Bool
  | [] => true
  | e :: rest => everywhere p e && everywhereIn p rest

end

variable {p : Expr → Bool}

theorem everywhereIn_iff (es : List Expr) :
    everywhereIn p es ↔ ∀ e ∈ es, everywhere p e := by
  induction es with
  | nil => simp [everywhereIn]
  | cons e rest ih => simp [everywhereIn, ih]

theorem everywhere_sequence (parts : List Expr) : everywhere p (sequence parts) ↔
    p (sequence parts) ∧ ∀ e ∈ parts, everywhere p e := by
  simp [everywhere, everywhereIn_iff]

theorem everywhere_alternatives (branches : List Expr) : everywhere p (alternatives branches) ↔
    p (alternatives branches) ∧ ∀ e ∈ branches, everywhere p e := by
  simp [everywhere, everywhereIn_iff]

/-- Names are identifiers, and there is a branch wherever one has to be taken. -/
def wellFormed : Expr → Bool := everywhere fun
  | characterSet name | nonTerminal name => isIdentifier name
  | alternatives branches => !branches.isEmpty
  | _ => true

theorem wellFormed_sequence (parts : List Expr) :
    (sequence parts).wellFormed ↔ ∀ e ∈ parts, e.wellFormed := by
  simp [wellFormed, everywhere_sequence]

theorem wellFormed_alternatives (branches : List Expr) :
    (alternatives branches).wellFormed ↔ branches ≠ [] ∧ ∀ e ∈ branches, e.wellFormed := by
  simp [wellFormed, everywhere_alternatives]

theorem wellFormed_optional (body : Expr) : (optional body).wellFormed ↔ body.wellFormed := by
  simp [wellFormed, everywhere]

theorem wellFormed_repetition (min : UInt64) (max : Option UInt64) (body : Expr) :
    (repetition min max body).wellFormed ↔ body.wellFormed := by
  simp [wellFormed, everywhere]

mutual

/-- A choice between branches as the only branch of another choice, or of several
in each other. It is written like the choice, but gets no parentheses. -/
def disguised : Expr → Bool
  | alternatives branches => wraps branches
  | _ => false

def wraps : List Expr → Bool
  | [e] => e.needsParens || disguised e
  | _ => false

end

/-- No part of a sequence is a choice in disguise. -/
def exposed : Expr → Bool := everywhere fun
  | sequence parts => parts.all fun e => !e.disguised
  | _ => true

theorem exposed_sequence (parts : List Expr) : (sequence parts).exposed ↔
    (∀ e ∈ parts, e.disguised = false) ∧ ∀ e ∈ parts, e.exposed := by
  simp [exposed, everywhere_sequence]

theorem exposed_alternatives (branches : List Expr) :
    (alternatives branches).exposed ↔ ∀ e ∈ branches, e.exposed := by
  simp [exposed, everywhere_alternatives]

theorem exposed_optional (body : Expr) : (optional body).exposed ↔ body.exposed := by
  simp [exposed, everywhere]

theorem exposed_repetition (min : UInt64) (max : Option UInt64) (body : Expr) :
    (repetition min max body).exposed ↔ body.exposed := by
  simp [exposed, everywhere]

/-- Whatever is asked of a body that is a part of a sequence. -/
structure Sound (e : Expr) : Prop where
  wellFormed : e.wellFormed
  exposed : e.exposed
  plain : e.disguised = false

end Expr

end Ebnf
