import Ebnf.Proofs.Shape
import Mathlib.Computability.Language
/-! The words a body stands for. A character set or another production is one
symbol of a word, for what is in it is not known here. -/

namespace Ebnf

inductive Symbol
  | char (c : Char)
  | set (name : String)
  | rule (name : String)
  deriving DecidableEq

namespace Expr

mutual

def language : Expr → Language Symbol
  | epsilon => 1
  | literal text => {text.toList.map .char}
  | characterSet name => {[.set name]}
  | nonTerminal name => {[.rule name]}
  | sequence parts => product parts
  | alternatives branches => union branches
  | optional body => 1 + language body
  | repetition min max body =>
    {word | ∃ n, min.toNat ≤ n ∧ (∀ m ∈ max, n ≤ m.toNat) ∧ word ∈ language body ^ n}

/-- One word of each body, one after the other. -/
def product : List Expr → Language Symbol
  | [] => 1
  | e :: rest => language e * product rest

/-- The words of any of the bodies. -/
def union : List Expr → Language Symbol
  | [] => 0
  | e :: rest => language e + union rest

end

theorem product_append (es fs : List Expr) : product (es ++ fs) = product es * product fs := by
  induction es with
  | nil => simp [product]
  | cons e rest ih => simp [product, ih, mul_assoc]

theorem union_append (es fs : List Expr) : union (es ++ fs) = union es + union fs := by
  induction es with
  | nil => simp [union]
  | cons e rest ih => simp [union, ih, add_assoc]

theorem product_literals (segments : List (List Char)) :
    product (segments.map fun s => literal (String.ofList s))
      = {segments.flatten.map Symbol.char} := by
  induction segments with
  | nil => rfl
  | cons s rest ih =>
    apply Language.ext
    intro word
    rw [List.map_cons, product, ih, language, String.toList_ofList, Language.mem_mul,
      List.flatten_cons, List.map_append]
    constructor
    · rintro ⟨_, rfl, _, rfl, rfl⟩
      rfl
    · rintro rfl
      exact ⟨_, rfl, _, rfl, rfl⟩

end Expr

end Ebnf
