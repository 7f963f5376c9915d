import Mathlib.Data.List.Sort
import Mathlib.Data.String.Basic
import Ebnf.InsertionMap
/-! What a map binds does not depend on the order of its bindings, because no
key is bound twice. Putting bindings of distinct keys into an empty map gives
those bindings back, and sorting the keys leaves one arrangement only. -/

namespace Ebnf.InsertionMap

section Lookup

variable {κ ν : Type} [DecidableEq κ]

theorem find?_eq_some_iff {l : List (κ × ν)} (h : (l.map Prod.fst).Nodup) (k : κ) (v : ν) :
    find? k l = some v ↔ (k, v) ∈ l := by
  induction l with
  | nil => simp [find?]
  | cons e rest ih =>
    rw [List.map_cons, List.nodup_cons] at h
    obtain ⟨hk, hrest⟩ := h
    rw [find?, List.mem_cons]
    split
    · next he =>
      subst he
      constructor
      · intro hv
        exact Or.inl (by rw [← Option.some.inj hv])
      · rintro (hv | hv)
        · rw [← hv]
        · exact absurd (List.mem_map_of_mem (f := Prod.fst) hv) hk
    · next he =>
      rw [ih hrest]
      constructor
      · exact Or.inr
      · rintro (hv | hv)
        · exact absurd (by rw [← hv]) he
        · exact hv

theorem get?_eq_some_iff (m : InsertionMap κ ν) (k : κ) (v : ν) :
    m.get? k = some v ↔ (k, v) ∈ m.entries :=
  find?_eq_some_iff m.nodup_keys k v

theorem get?_eq_none_iff (m : InsertionMap κ ν) (k : κ) : m.get? k = none ↔ k ∉ m.keys := by
  rw [← not_iff_not, not_not, ← ne_eq, Option.ne_none_iff_exists']
  simp only [get?_eq_some_iff, keys, List.mem_map, Prod.exists, exists_and_right, exists_eq_right]

/-- Two maps with the same bindings give the same answers. -/
theorem get?_of_perm {m n : InsertionMap κ ν} (h : m.entries.Perm n.entries) (k : κ) :
    m.get? k = n.get? k := by
  ext v
  rw [get?_eq_some_iff, get?_eq_some_iff, h.mem_iff]

omit [DecidableEq κ] in
theorem nodup_entries (m : InsertionMap κ ν) : m.entries.Nodup := .of_map Prod.fst m.nodup_keys

/-- Two maps give the same answers exactly if they have the same bindings. -/
theorem perm_iff_get? {m n : InsertionMap κ ν} : m.entries.Perm n.entries ↔ ∀ k, m.get? k = n.get? k := by
  refine ⟨get?_of_perm, fun h => ?_⟩
  rw [List.perm_ext_iff_of_nodup m.nodup_entries n.nodup_entries]
  rintro ⟨k, v⟩
  rw [← get?_eq_some_iff, ← get?_eq_some_iff, h]

theorem same_of_perm [DecidableEq ν] {m n : InsertionMap κ ν} (h : m.entries.Perm n.entries) :
    (m == n) = true := by
  change same m n = true
  rw [same, Bool.and_eq_true, beq_iff_eq, List.all_eq_true]
  refine ⟨h.length_eq, ?_⟩
  rintro ⟨k, v⟩ he
  rw [decide_eq_true_iff, get?_eq_some_iff]
  exact h.mem_iff.1 he

end Lookup

section OfList

variable {κ ν : Type} [DecidableEq κ]

theorem put_of_not_mem {k : κ} {l : List (κ × ν)} (h : k ∉ l.map Prod.fst) (v : ν) :
    put k v l = l ++ [(k, v)] := by
  induction l with
  | nil => rfl
  | cons e rest ih =>
    rw [List.map_cons, List.mem_cons, not_or] at h
    rw [put, if_neg (Ne.symm h.1), ih h.2, List.cons_append]

theorem entries_foldl_insert (l : List (κ × ν)) (m : InsertionMap κ ν)
    (h : (m.entries.map Prod.fst ++ l.map Prod.fst).Nodup) :
    (l.foldl (fun m e => m.insert e.1 e.2) m).entries = m.entries ++ l := by
  induction l generalizing m with
  | nil => simp
  | cons e rest ih =>
    have hk : e.1 ∉ m.entries.map Prod.fst := fun he =>
      List.disjoint_of_nodup_append h he (List.mem_cons_self ..)
    have hput : (m.insert e.1 e.2).entries = m.entries ++ [e] := put_of_not_mem hk e.2
    rw [List.foldl_cons, ih, hput, List.append_assoc, List.singleton_append]
    rw [hput, List.map_append, List.append_assoc]
    exact h

theorem entries_ofList {l : List (κ × ν)} (h : (l.map Prod.fst).Nodup) : (ofList l).entries = l :=
  entries_foldl_insert l empty h

end OfList

section Sorted

variable {κ ν : Type} [LinearOrder κ]

theorem entries_sortKeys_perm (m : InsertionMap κ ν) : m.sortKeys.entries.Perm m.entries :=
  List.mergeSort_perm _ _

theorem sortKeys_pairwise_le (m : InsertionMap κ ν) :
    m.sortKeys.entries.Pairwise fun a b => a.1 ≤ b.1 := by
  have h := @List.pairwise_mergeSort (κ × ν) (fun a b => decide (a.1 ≤ b.1))
    (fun a b c hab hbc => by simp only [decide_eq_true_iff] at *; exact hab.trans hbc)
    (fun a b => by simpa using le_total a.1 b.1) m.entries
  exact h.imp fun h => of_decide_eq_true h

/-- Sorting puts the keys in strictly increasing order. -/
theorem keys_sortKeys_pairwise (m : InsertionMap κ ν) : m.sortKeys.keys.Pairwise (· < ·) := by
  have hle : m.sortKeys.keys.Pairwise (· ≤ ·) := List.pairwise_map.2 m.sortKeys_pairwise_le
  have hne : m.sortKeys.keys.Pairwise (· ≠ ·) := m.sortKeys.nodup_keys
  exact (hle.and hne).imp fun h => lt_of_le_of_ne h.1 h.2

/-- Two maps with the same bindings are sorted alike. -/
theorem sortKeys_eq_of_perm {m n : InsertionMap κ ν} (h : m.entries.Perm n.entries) :
    m.sortKeys = n.sortKeys := by
  have hp : m.sortKeys.entries.Perm n.sortKeys.entries :=
    (entries_sortKeys_perm m).trans (h.trans (entries_sortKeys_perm n).symm)
  have hlt : ∀ m : InsertionMap κ ν, m.sortKeys.entries.Pairwise fun a b => a.1 < b.1 := fun m =>
    List.pairwise_map.1 (keys_sortKeys_pairwise m)
  exact ext_entries (hp.eq_of_pairwise (fun a b _ _ hab hba => absurd hab (lt_asymm hba)) (hlt m) (hlt n))

end Sorted

end Ebnf.InsertionMap
