import Mathlib.Data.List.Nodup
import Ebnf.Resolution
/-! The productions of a table under their names. Names are distinct, so a name
stands for one production, and its number is the place of that production. -/

namespace Ebnf.Table

variable {t : Table} {name : String}

/-- The names of the productions, in order. -/
def names (t : Table) : List String := t.toList.map Production.name

theorem entries_eq (t : Table) : t.productions.entries = t.toList.map fun p => (p.name, p) := by
  rw [toList, NameIndex.values, List.map_map]
  symm
  refine (List.map_congr_left ?_).trans (List.map_id _)
  intro e he
  exact Prod.ext (t.keyed e he) rfl

theorem names_eq (t : Table) : t.productions.names = t.names := by
  rw [NameIndex.names, entries_eq, List.map_map]
  rfl

theorem nodup_names (t : Table) : t.names.Nodup := t.names_eq ▸ t.productions.nodup_names

theorem mem_names : name ∈ t.names ↔ ∃ p ∈ t.toList, p.name = name := List.mem_map

theorem name_mem_names (id : t.Id) : (t.production id).name ∈ t.names :=
  List.mem_map_of_mem (List.get_mem _ _)

theorem id?_eq_none_iff : t.productions.id? name = none ↔ name ∉ t.names := by
  rw [NameIndex.id?, List.idxOf?_eq_none_iff, names_eq]

theorem mem_names_of_id? {n : Nat} (h : t.productions.id? name = some n) : name ∈ t.names := by
  by_contra hn
  rw [id?_eq_none_iff.2 hn] at h
  cases h

/-- A name belongs to the production whose number it has, and to no other. -/
theorem name_eq_iff_of_id? {n : Nat} (h : t.productions.id? name = some n) (id : t.Id) :
    (t.production id).name = name ↔ id.val = n := by
  rw [NameIndex.id?, names_eq] at h
  obtain ⟨hn, hname, -⟩ := List.idxOf?_eq_some_iff.1 h
  have hid : id.val < t.names.length := by simp [names]
  have hget : (t.production id).name = t.names[id.val] := by simp [production, names]
  rw [hget, ← hname, t.nodup_names.getElem_inj_iff]

theorem isSome_value?_of_id? {n : Nat} (h : t.productions.id? name = some n) :
    (t.productions.value? n).isSome := by
  obtain ⟨hn, -⟩ := List.idxOf?_eq_some_iff.1 h
  rw [NameIndex.names, List.length_map] at hn
  simpa [NameIndex.value?, NameIndex.values] using hn

theorem get?_eq_some_iff {p : Production} : t.get? name = some p ↔ p ∈ t.toList ∧ p.name = name := by
  rw [get?, NameIndex.find?, Option.bind_eq_some_iff]
  constructor
  · rintro ⟨n, hid, hp⟩
    obtain ⟨hn, rfl⟩ := List.getElem?_eq_some_iff.1 hp
    exact ⟨List.getElem_mem hn, (name_eq_iff_of_id? hid ⟨n, hn⟩).2 rfl⟩
  · rintro ⟨hp, rfl⟩
    obtain ⟨i, hi, rfl⟩ := List.getElem_of_mem hp
    cases hid : t.productions.id? t.toList[i].name with
    | none => exact absurd (List.mem_map_of_mem hp) (id?_eq_none_iff.1 hid)
    | some n =>
      have hin : i = n := (name_eq_iff_of_id? hid ⟨i, hi⟩).1 rfl
      exact ⟨n, rfl, hin ▸ List.getElem?_eq_getElem hi⟩

theorem get?_eq_none_iff : t.get? name = none ↔ name ∉ t.names := by
  rw [← not_iff_not, not_not, ← ne_eq, Option.ne_none_iff_exists', mem_names]
  simp only [get?_eq_some_iff]

theorem get?_eq_find? (t : Table) (name : String) : t.get? name = t.toList.find? (·.name = name) := by
  cases h : t.toList.find? (·.name = name) with
  | none =>
    rw [get?_eq_none_iff, mem_names]
    rintro ⟨p, hp, rfl⟩
    simpa using List.find?_eq_none.1 h p hp
  | some p =>
    have hname : p.name = name := by simpa using List.find?_some h
    exact get?_eq_some_iff.2 ⟨List.mem_of_find?_eq_some h, hname⟩

end Ebnf.Table
