import Ebnf.Proofs.Layout
/-! Laying out a body keeps its language, unless a choice in disguise is a part of
a sequence: only then do bars get between the parts. -/

namespace Ebnf

namespace Row

/-- The row has no bars, and its items in sequence have the language. -/
def Spells (row : Row) (language : Language Symbol) : Prop :=
  ∃ items : List Expr, row = items.map some ∧ Expr.product items = language

theorem spells_item (e : Expr) : Spells [some e] e.language :=
  ⟨[e], rfl, by simp [Expr.product]⟩

variable {row row' : Row} {l l' : Language Symbol}

theorem Spells.append (h : row.Spells l) (h' : row'.Spells l') : Spells (row ++ row') (l * l') := by
  obtain ⟨items, rfl, rfl⟩ := h
  obtain ⟨items', rfl, rfl⟩ := h'
  exact ⟨items ++ items', by simp, Expr.product_append items items'⟩

theorem Spells.language_eq (h : row.Spells l) : row.toExpr.language = l := by
  obtain ⟨items, rfl, rfl⟩ := h
  exact language_map_some items

end Row

namespace Expr

theorem spells_parts {parts : List Expr} (h : ∀ e ∈ parts, e.partRow.Spells e.language) :
    Row.Spells (parts.map partRow).flatten (product parts) := by
  induction parts with
  | nil => exact ⟨[], rfl, rfl⟩
  | cons e rest ih =>
    rw [List.forall_mem_cons] at h
    exact h.1.append (ih h.2)

theorem union_map_congr {f : Expr → Expr} {branches : List Expr}
    (h : ∀ e ∈ branches, (f e).language = e.language) :
    union (branches.map f) = union branches := by
  induction branches with
  | nil => rfl
  | cons e rest ih =>
    rw [List.forall_mem_cons] at h
    rw [List.map_cons, union, h.1, ih h.2, union]

/-- The row keeps the language, both as a body in brackets and next to others. -/
structure Kept (e : Expr) : Prop where
  language_eq : e.layout.toExpr.language = e.language
  spells : e.needsParens = false → e.disguised = false → e.layout.Spells e.language

theorem Kept.of_spells {e : Expr} (h : e.layout.Spells e.language) : e.Kept :=
  ⟨h.language_eq, fun _ _ => h⟩

theorem Kept.of_item {e item : Expr} (h : e.layout = [some item])
    (hitem : item.language = e.language) : e.Kept := by
  refine .of_spells ?_
  rw [h, ← hitem]
  exact Row.spells_item item

theorem Kept.partRow {e : Expr} (h : e.Kept) (hplain : e.disguised = false) :
    e.partRow.Spells e.language := by
  unfold Expr.partRow
  split
  · rw [← h.language_eq]
    exact Row.spells_item _
  · next hp => exact h.spells (Bool.eq_false_iff.mpr hp) hplain

theorem kept_of_exposed {e : Expr} (hw : e.wellFormed) (he : e.exposed) : e.Kept := by
  induction e with
  | epsilon | characterSet | nonTerminal => exact .of_item rfl rfl
  | literal text =>
    refine .of_spells ⟨_, rfl, ?_⟩
    rw [product_literals, Literal.flatten_segments]
    rfl
  | sequence parts ih =>
    rw [wellFormed_sequence] at hw
    rw [exposed_sequence] at he
    cases parts with
    | nil => exact .of_item rfl rfl
    | cons e rest =>
      refine .of_spells ?_
      rw [layout_sequence_cons]
      exact spells_parts fun f hf => (ih f hf (hw f hf) (he.2 f hf)).partRow (he.1 f hf)
  | alternatives branches ih =>
    rw [wellFormed_alternatives] at hw
    rw [exposed_alternatives] at he
    have hkept (f) (hf : f ∈ branches) : f.Kept := ih f hf (hw.2 f hf) (he f hf)
    constructor
    · rw [layout_alternatives, Row.language_bars (by simp [hw.1]), List.map_map, language]
      exact union_map_congr fun f hf => (hkept f hf).language_eq
    · -- without parentheses there is one branch, and no choice hides in it
      intro hp hd
      obtain ⟨b, rest, rfl⟩ := List.exists_cons_of_ne_nil hw.1
      cases rest with
      | nil =>
        have hb : b.needsParens = false ∧ b.disguised = false := by
          simpa [disguised, wraps] using hd
        have hspells := (hkept b (List.mem_singleton_self b)).spells hb.1 hb.2
        simpa [layout_alternatives, Row.bars_singleton, language, union] using hspells
      | cons b' rest => cases hp
  | optional body ih =>
    rw [wellFormed_optional] at hw
    rw [exposed_optional] at he
    refine .of_item rfl ?_
    rw [language, (ih hw he).language_eq, language]
  | repetition min max body ih =>
    rw [wellFormed_repetition] at hw
    rw [exposed_repetition] at he
    refine .of_item rfl ?_
    rw [language, (ih hw he).language_eq, language]

end Expr

end Ebnf
