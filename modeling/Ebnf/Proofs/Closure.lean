import Ebnf.Proofs.Outcome
/-! A grammar that comes of a table holds the productions of the table, each as
it was and under its own name, and has a production for every name that one of
them mentions. How the productions are arranged does not matter for that, as
long as none is lost, added or changed. -/

namespace Ebnf

/-- Rearranges the productions and does nothing else to them. -/
def Rearranges (arrange : ProductionMap → ProductionMap) : Prop :=
  ∀ m, (arrange m).entries.Perm m.entries

theorem rearranges_id : Rearranges id := fun _ => .refl _

theorem rearranges_sortKeys : Rearranges InsertionMap.sortKeys := InsertionMap.entries_sortKeys_perm

/-- Every name that a body of `g` mentions is the name of a production of `g`. -/
def Grammar.Closed (g : Grammar) : Prop :=
  ∀ p ∈ g.toList, ∀ name ∈ p.body.nonTerminals, ∃ q, g.production? name = some q ∧ q.name = name

/-- `g` holds what `t` holds, in some order. -/
structure Table.Kept (t : Table) (g : Grammar) : Prop where
  language : g.language = t.language
  caseSensitive : g.caseSensitive = t.caseSensitive
  productions : g.toList.Perm t.toList
  size : g.size = t.size
  production? : ∀ name, g.production? name = t.get? name
  keyed : ∀ e ∈ g.productions.entries, e.1 = e.2.name

namespace Table

variable {t : Table} {arrange : ProductionMap → ProductionMap} {options : List ResolutionOption}

theorem entries_productionMap (t : Table) :
    t.productionMap.entries = t.toList.map fun p => (p.name, p) := by
  refine InsertionMap.entries_ofList ?_
  rw [List.map_map]
  exact t.nodup_names

theorem values_productionMap (t : Table) : t.productionMap.values = t.toList := by
  rw [InsertionMap.values, entries_productionMap, List.map_map]
  exact List.map_id _

theorem get?_productionMap (t : Table) (name : String) : t.productionMap.get? name = t.get? name := by
  ext p
  rw [InsertionMap.get?_eq_some_iff, entries_productionMap, get?_eq_some_iff, List.mem_map]
  constructor
  · rintro ⟨q, hq, he⟩
    cases he
    exact ⟨hq, rfl⟩
  · rintro ⟨hp, rfl⟩
    exact ⟨p, hp, rfl⟩

theorem kept_of_rearranges (t : Table) (h : Rearranges arrange) :
    t.Kept ⟨t.language, t.caseSensitive, arrange t.productionMap⟩ where
  language := rfl
  caseSensitive := rfl
  productions := t.values_productionMap ▸ (h t.productionMap).map Prod.snd
  size := by
    rw [Grammar.size, InsertionMap.size, (h t.productionMap).length_eq, entries_productionMap]
    simp [Table.size, NameIndex.size, entries_eq]
  production? name := by
    rw [Grammar.production?, InsertionMap.get?_of_perm (h t.productionMap), get?_productionMap]
  keyed e he := by
    rw [(h t.productionMap).mem_iff, entries_productionMap] at he
    obtain ⟨p, -, rfl⟩ := List.mem_map.1 he
    rfl

/-- Nothing is asked for in vain if there is a root, where one is asked for, and
every name that a body mentions is defined. -/
theorem requests_eq_nil_iff_closed : t.requests options = [] ↔
    ¬ t.LacksRoot options ∧ ∀ p ∈ t.toList, ∀ name ∈ p.body.names, name ∈ t.names := by
  rw [requests, List.append_eq_nil_iff, List.flatMap_eq_nil_iff]
  refine and_congr ?_ (forall₂_congr fun p _ => ?_)
  · by_cases h : t.LacksRoot options <;> simp [h]
  · simp [vain]

theorem exists_get? {name : String} (h : name ∈ t.names) : ∃ q, t.get? name = some q ∧ q.name = name := by
  obtain ⟨q, hq, rfl⟩ := mem_names.1 h
  exact ⟨q, get?_eq_some_iff.2 ⟨hq, rfl⟩, rfl⟩

/-- A grammar is closed and holds what the table held, in the order of definition
or sorted if the arrangement keeps that order or sorts. -/
theorem resolve_keeps {g : Grammar} (harr : Rearranges arrange)
    (h : (t.resolve arrange options).value = .ok g) :
    t.Kept g ∧ g.Closed ∧
      (arrange = id → g.toList = t.toList) ∧
      (arrange = InsertionMap.sortKeys → g.productions.keys.Pairwise (· < ·)) ∧
      ((g.production? g.language).isSome ∨ .allowRootless ∈ options) := by
  obtain ⟨hroot, hdefined⟩ := requests_eq_nil_iff_closed.1 (requests_of_ok arrange h)
  obtain rfl := eq_of_ok arrange h
  have hkept := t.kept_of_rearranges harr
  refine ⟨hkept, ?_, ?_, ?_, ?_⟩
  · intro p hp name hn
    rw [Expr.nonTerminals_eq_names] at hn
    rw [hkept.production?]
    exact exists_get? (hdefined p (hkept.productions.mem_iff.1 hp) name hn)
  · rintro rfl
    exact t.values_productionMap
  · rintro rfl
    exact InsertionMap.keys_sortKeys_pairwise _
  · by_contra hno
    rw [not_or, hkept.production?] at hno
    refine hroot ⟨fun hl => hno.1 ?_, hno.2⟩
    obtain ⟨q, hq, -⟩ := exists_get? hl
    exact Option.isSome_iff_exists.2 ⟨q, hq⟩

/-- A table whose order of definition is not the order of its names. -/
def unsorted : Table where
  language := "lang"
  caseSensitive := true
  productions :=
    ⟨[("lang", ⟨"lang", none, some "lang", .sequence [.nonTerminal "b", .optional (.nonTerminal "a")]⟩),
      ("b", ⟨"b", some "back", some "other", .alternatives [.nonTerminal "lang", .literal "b"]⟩),
      ("a", ⟨"a", none, some "lang", .epsilon⟩)], by decide⟩
  language_ne := by decide
  keyed := by simp
  tagged := by simp

theorem resolve_keeps_unsorted : ∃ g, (unsorted.resolve InsertionMap.sortKeys []).value = .ok g ∧
    unsorted.Kept g ∧ g.Closed ∧ g.productions.keys.Pairwise (· < ·) := by
  have hg := congrArg Logged.value
    (resolve_of_complete InsertionMap.sortKeys (show unsorted.requests [] = [] by decide))
  obtain ⟨hkept, hclosed, -, hsorted, -⟩ := resolve_keeps rearranges_sortKeys hg
  exact ⟨_, hg, hkept, hclosed, hsorted rfl⟩

end Table

end Ebnf
