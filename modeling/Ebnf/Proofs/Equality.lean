import Mathlib.Data.List.Perm.Subperm
import Ebnf.Grammar
import Ebnf.Proofs.Bindings
/-! Maps are equal if they give the same answers, and so are grammars. The test
for it looks at one side only and counts: no key is bound twice, so a map that
has all the bindings of another and no more of them has no others. -/

namespace Ebnf

namespace InsertionMap

variable {κ ν : Type} [DecidableEq ν]

theorem same_iff_perm [DecidableEq κ] {m n : InsertionMap κ ν} :
    (m == n) = true ↔ m.entries.Perm n.entries := by
  refine ⟨fun h => ?_, same_of_perm⟩
  change same m n = true at h
  rw [same, Bool.and_eq_true, beq_iff_eq, List.all_eq_true] at h
  obtain ⟨hsize, hbound⟩ := h
  have hsub : m.entries ⊆ n.entries := by
    rintro ⟨k, v⟩ he
    exact (n.get?_eq_some_iff k v).1 (of_decide_eq_true (hbound _ he))
  exact (List.Nodup.subperm m.nodup_entries hsub).perm_of_length_le hsize.ge

theorem same_equivalence [DecidableEq κ] : Equivalence fun m n : InsertionMap κ ν => (m == n) = true where
  refl _ := same_iff_perm.2 (.refl _)
  symm h := same_iff_perm.2 (same_iff_perm.1 h).symm
  trans h h' := same_iff_perm.2 ((same_iff_perm.1 h).trans (same_iff_perm.1 h'))

/-- How the bindings of a map are arranged makes no difference to what it equals. -/
theorem same_congr [DecidableEq κ] {m m' : InsertionMap κ ν} (h : m.entries.Perm m'.entries)
    (n : InsertionMap κ ν) : (m == n) = (m' == n) ∧ (n == m) = (n == m') := by
  constructor
  · rw [Bool.eq_iff_iff, same_iff_perm, same_iff_perm]
    exact ⟨h.symm.trans, h.trans⟩
  · rw [Bool.eq_iff_iff, same_iff_perm, same_iff_perm]
    exact ⟨fun hn => hn.trans h, fun hn => hn.trans h.symm⟩

end InsertionMap

theorem Grammar.same_iff {g h : Grammar} : (g == h) = true ↔
    g.language = h.language ∧ g.caseSensitive = h.caseSensitive ∧
      ∀ name, g.production? name = h.production? name := by
  change same g h = true ↔ _
  rw [same, Bool.and_eq_true, Bool.and_eq_true, beq_iff_eq, beq_iff_eq, InsertionMap.same_iff_perm,
    InsertionMap.perm_iff_get?, and_assoc, and_left_comm]
  rfl

/-- Maps are equal exactly if they give the same answers, in whatever order they
have their bindings, and grammars are if they have the same language, the same
flag and the same answers. -/
theorem equal_iff_same_answers {κ ν : Type} [LinearOrder κ] [DecidableEq ν] :
    (∀ m n : InsertionMap κ ν, (m == n) = true ↔ ∀ k, m.get? k = n.get? k) ∧
    Equivalence (fun m n : InsertionMap κ ν => (m == n) = true) ∧
    (∀ m m' n : InsertionMap κ ν, m.entries.Perm m'.entries →
      (m == n) = (m' == n) ∧ (n == m) = (n == m')) ∧
    (∀ m n : InsertionMap κ ν, (m.sortKeys == n) = (m == n) ∧ (n == m.sortKeys) = (n == m)) ∧
    (∀ m n : InsertionMap κ ν, (m == n) = true → m.size = n.size) ∧
    ∀ g h : Grammar,
      ((g == h) = true ↔ g.language = h.language ∧ g.caseSensitive = h.caseSensitive ∧
        ∀ name, g.production? name = h.production? name) ∧
      ((g == h) = true → hash g = hash h) := by
  refine ⟨fun m n => ?_, InsertionMap.same_equivalence, fun m m' n h => InsertionMap.same_congr h n,
    fun m n => InsertionMap.same_congr m.entries_sortKeys_perm n, fun m n h => ?_,
    fun g h => ⟨Grammar.same_iff, fun he => ?_⟩⟩
  · rw [InsertionMap.same_iff_perm, InsertionMap.perm_iff_get?]
  · exact (InsertionMap.same_iff_perm.1 h).length_eq
  · exact congrArg (fun language : String => hash language) (Grammar.same_iff.1 he).1

/-- Two maps with the same bindings, one of which was bound twice on the way. -/
def boundTwice : InsertionMap String Nat := .ofList [("z", 1), ("a", 2), ("z", 3)]

def boundOnce : InsertionMap String Nat := .ofList [("a", 2), ("z", 3)]

/-- Two grammars of one language, with their productions in different orders. -/
def rootFirst : Grammar := ⟨"l", true,
  .ofList [("l", ⟨"l", none, some "l", .nonTerminal "a"⟩), ("a", ⟨"a", none, some "l", .epsilon⟩)]⟩

def rootLast : Grammar := ⟨"l", true,
  .ofList [("a", ⟨"a", none, some "l", .epsilon⟩), ("l", ⟨"l", none, some "l", .nonTerminal "a"⟩)]⟩

theorem equal_boundTwice_boundOnce : boundTwice.entries.Perm boundOnce.entries ∧ (boundTwice == boundOnce) = true ∧
    (boundTwice == boundOnce.sortKeys) = (boundOnce == boundOnce.sortKeys) ∧ boundTwice.size = boundOnce.size ∧
    (rootFirst == rootLast) = true ∧ hash rootFirst = hash rootLast := by
  obtain ⟨-, -, hperm, -, hsize, hgrammars⟩ := @equal_iff_same_answers String Nat _ _
  have hsame : (boundTwice == boundOnce) = true := by decide
  have hp : boundTwice.entries.Perm boundOnce.entries := by decide
  have hg : (rootFirst == rootLast) = true := by decide
  exact ⟨hp, hsame, (hperm _ _ _ hp).1, hsize _ _ hsame, hg, (hgrammars _ _).2 hg⟩

end Ebnf
