import Mathlib.Data.List.Dedup
import Mathlib.Data.List.Induction
/-! The members of a list, each once, in the order in which they first come up.
That is what is left when repetitions are erased. -/

namespace Ebnf

variable {α : Type} [DecidableEq α]

theorem eraseDups_concat (l : List α) (a : α) :
    (l ++ [a]).eraseDups = if a ∈ l then l.eraseDups else l.eraseDups ++ [a] := by
  rw [List.eraseDups_append, List.removeAll, List.filter_singleton]
  by_cases h : a ∈ l <;> simp [h, List.eraseDups_cons]

theorem nodup_eraseDups (l : List α) : l.eraseDups.Nodup := by
  induction l using List.reverseRecOn with
  | nil => exact List.nodup_nil
  | append_singleton l a ih =>
    rw [eraseDups_concat]
    split
    · exact ih
    · next h =>
      rw [← List.concat_eq_append]
      exact ih.concat (mt List.mem_eraseDups.1 h)

theorem eraseDups_perm {as bs : List α} (h : as.Perm bs) : as.eraseDups.Perm bs.eraseDups := by
  rw [List.perm_ext_iff_of_nodup (nodup_eraseDups _) (nodup_eraseDups _)]
  intro a
  rw [List.mem_eraseDups, List.mem_eraseDups, h.mem_iff]

/-- The second list has the members of the first, each once, in the order in
which they first come up there. -/
structure FirstOccurrences (l once : List α) : Prop where
  nodup : once.Nodup
  mem_iff : ∀ a, a ∈ once ↔ a ∈ l
  pairwise : once.Pairwise fun a b => l.idxOf a < l.idxOf b

theorem FirstOccurrences.perm {l l' once once' : List α} (h : FirstOccurrences l once)
    (h' : FirstOccurrences l' once') (hp : l.Perm l') : once.Perm once' := by
  rw [List.perm_ext_iff_of_nodup h.nodup h'.nodup]
  intro a
  rw [h.mem_iff, h'.mem_iff, hp.mem_iff]

theorem firstOccurrences_eraseDups (l : List α) : FirstOccurrences l l.eraseDups where
  nodup := nodup_eraseDups l
  mem_iff _ := List.mem_eraseDups
  pairwise := by
    induction l using List.reverseRecOn with
    | nil => exact List.Pairwise.nil
    | append_singleton l a ih =>
      have hold : ∀ b ∈ l, (l ++ [a]).idxOf b = l.idxOf b := fun b hb => List.idxOf_append_of_mem hb
      have hmem : ∀ b ∈ l.eraseDups, b ∈ l := fun b hb => List.mem_eraseDups.1 hb
      have hkept : l.eraseDups.Pairwise fun b c => (l ++ [a]).idxOf b < (l ++ [a]).idxOf c :=
        ih.imp_of_mem fun hb hc h => by rwa [hold _ (hmem _ hb), hold _ (hmem _ hc)]
      rw [eraseDups_concat]
      split
      · exact hkept
      · next ha =>
        refine List.pairwise_append.2 ⟨hkept, List.pairwise_singleton _ _, fun b hb c hc => ?_⟩
        rw [List.mem_singleton.1 hc, hold b (hmem b hb), List.idxOf_append_of_notMem ha]
        exact Nat.lt_add_right _ (List.idxOf_lt_length_of_mem (hmem b hb))

end Ebnf
