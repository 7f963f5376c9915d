import Ebnf.Proofs.Meaning
import Mathlib.Data.List.Induction
import Mathlib.Data.List.ReduceOption
/-! A choice between sequences, laid out in a row: `some` item after `some` item,
and `none` for each bar between two branches. -/

namespace Ebnf

namespace Expr

/-- The pieces of a body as a part of a sequence. -/
def inSequence (e : Expr) : List String :=
  if e.needsParens then "(" :: e.pieces ++ [")"] else e.pieces

theorem inSequence_eq {e : Expr} (h : e.needsParens = false) : e.inSequence = e.pieces := by
  simp [inSequence, h]

theorem partPieces_eq_map (parts : List Expr) : partPieces parts = parts.map inSequence := by
  induction parts with
  | nil => rfl
  | cons e rest ih => rw [partPieces, ih, List.map_cons, inSequence]

theorem branchPieces_eq_map (branches : List Expr) : branchPieces branches = branches.map pieces := by
  induction branches with
  | nil => rfl
  | cons e rest ih => rw [branchPieces, ih, List.map_cons]

end Expr

theorem intercalate_append {α : Type} (sep : List α) {xs ys : List (List α)} (hx : xs ≠ [])
    (hy : ys ≠ []) :
    sep.intercalate (xs ++ ys) = sep.intercalate xs ++ sep ++ sep.intercalate ys := by
  induction xs, hx using List.recNeNil with
  | singleton x => rw [List.singleton_append, List.intercalate_cons_of_ne_nil hy,
      List.intercalate_singleton]
  | cons x rest hrest ih =>
    rw [List.cons_append, List.intercalate_cons_of_ne_nil (by simp [hrest]), ih,
      List.intercalate_cons_of_ne_nil hrest]
    simp

abbrev Row := List (Option Expr)

namespace Row

def branches (row : Row) : List (List Expr) := (row.splitOnP Option.isNone).map List.reduceOption

def toExpr (row : Row) : Expr := .alternatives (row.branches.map .sequence)

variable {row : Row}

/-- Rows with a bar between each of them and the next. -/
def bars (rows : List Row) : Row := [none].intercalate rows

theorem bars_singleton (row : Row) : bars [row] = row := by
  simp [bars]

theorem bars_cons (row : Row) {rest : List Row} (h : rest ≠ []) :
    bars (row :: rest) = row ++ none :: bars rest := by
  simp [bars, List.intercalate_cons_of_ne_nil h]

theorem mem_bars {rows : List Row} (hne : rows ≠ []) {e : Expr} (h : some e ∈ bars rows) :
    ∃ row ∈ rows, some e ∈ row := by
  induction rows, hne using List.recNeNil with
  | singleton row => exact ⟨row, List.mem_singleton_self row, bars_singleton row ▸ h⟩
  | cons row rest hrest ih =>
    rw [bars_cons row hrest, List.mem_append, List.mem_cons] at h
    rcases h with h | h | h
    · exact ⟨row, List.mem_cons_self, h⟩
    · cases h
    · obtain ⟨found, hfound, he⟩ := ih h
      exact ⟨found, List.mem_cons_of_mem _ hfound, he⟩

theorem branches_append_bar (row row' : Row) :
    branches (row ++ none :: row') = row.branches ++ row'.branches := by
  unfold branches
  rw [List.splitOnP_append_cons _ _ rfl, List.map_append]

theorem branches_map_some (items : List Expr) : branches (items.map some) = [items] := by
  unfold branches
  rw [List.splitOnP_eq_singleton (by simp), List.map_singleton]
  simp [List.reduceOption, List.filterMap_map]

theorem branches_ne_nil (row : Row) : row.branches ≠ [] := by
  simp [branches]

theorem branches_cons_some (e : Expr) (row : Row) :
    branches (some e :: row) = row.branches.modifyHead (e :: ·) := by
  unfold branches
  rw [List.splitOnP_cons_eq_if_modifyHead, if_neg (by simp)]
  cases row.splitOnP Option.isNone <;> simp

theorem flatten_branches (row : Row) : row.branches.flatten = row.reduceOption := by
  induction row with
  | nil => rfl
  | cons tile rest ih =>
    cases tile with
    | none =>
      rw [← List.nil_append (none :: rest), branches_append_bar, List.flatten_append, ih]
      rfl
    | some e =>
      rw [branches_cons_some, List.reduceOption_cons_of_some, ← ih]
      obtain ⟨first, more, h⟩ := List.exists_cons_of_ne_nil (branches_ne_nil rest)
      rw [h]
      rfl

theorem mem_of_mem_branches {branch : List Expr} (h : branch ∈ row.branches) {e : Expr}
    (he : e ∈ branch) : some e ∈ row := by
  rw [← List.reduceOption_mem_iff, ← flatten_branches]
  exact List.mem_flatten_of_mem h he

theorem language_append_bar (row row' : Row) :
    (toExpr (row ++ none :: row')).language = row.toExpr.language + row'.toExpr.language := by
  simp only [toExpr, Expr.language, branches_append_bar, List.map_append, Expr.union_append]

theorem language_bars {rows : List Row} (h : rows ≠ []) :
    (bars rows).toExpr.language = Expr.union (rows.map toExpr) := by
  induction rows, h using List.recNeNil with
  | singleton row => simp [bars_singleton, Expr.union]
  | cons row rest hrest ih => rw [bars_cons row hrest, language_append_bar, ih, List.map_cons, Expr.union]

theorem language_map_some (items : List Expr) :
    (toExpr (items.map some)).language = Expr.product items := by
  rw [toExpr, branches_map_some]
  simp [Expr.language, Expr.union]

theorem needsParens_toExpr (h : none ∈ row) : row.toExpr.needsParens := by
  obtain ⟨before, after, rfl⟩ := List.append_of_mem h
  obtain ⟨b, bs, hb⟩ := List.exists_cons_of_ne_nil (branches_ne_nil before)
  obtain ⟨a, as, ha⟩ := List.exists_cons_of_ne_nil (branches_ne_nil after)
  rw [toExpr, branches_append_bar, hb, ha]
  cases bs <;> rfl

theorem disguised_toExpr (row : Row) : row.toExpr.disguised = false := by
  obtain ⟨b, bs, hb⟩ := List.exists_cons_of_ne_nil (branches_ne_nil row)
  rw [toExpr, hb]
  cases bs <;> rfl

theorem sound_toExpr (h : ∀ e, some e ∈ row → e.Sound) : row.toExpr.Sound := by
  have hmem {items} (hitems : items ∈ row.branches) (e) (he : e ∈ items) : e.Sound :=
    h e (mem_of_mem_branches hitems he)
  refine ⟨?_, ?_, disguised_toExpr row⟩
  · rw [toExpr, Expr.wellFormed_alternatives, List.forall_mem_map]
    refine ⟨by simp [branches_ne_nil], fun items hitems => ?_⟩
    rw [Expr.wellFormed_sequence]
    exact fun e he => (hmem hitems e he).wellFormed
  · rw [toExpr, Expr.exposed_alternatives, List.forall_mem_map]
    intro items hitems
    rw [Expr.exposed_sequence]
    exact ⟨fun e he => (hmem hitems e he).plain, fun e he => (hmem hitems e he).exposed⟩

/-- Items at both ends, and no two bars next to each other. -/
inductive Proper : Row → Prop
  | item (e : Expr) : Proper [some e]
  | next (e : Expr) {row : Row} : Proper row → Proper (some e :: row)
  | bar (e : Expr) {row : Row} : Proper row → Proper (some e :: none :: row)

theorem pieces_toExpr (row : Row) : row.toExpr.pieces =
    [" | "].intercalate (row.branches.map fun items => [" "].intercalate (items.map Expr.inSequence)) := by
  rw [toExpr, Expr.pieces, Expr.branchPieces_eq_map, List.map_map]
  congr 2
  funext items
  rw [Function.comp, Expr.pieces, Expr.partPieces_eq_map]

theorem pieces_map_some (items : List Expr) :
    (toExpr (items.map some)).pieces = [" "].intercalate (items.map Expr.inSequence) := by
  rw [pieces_toExpr, branches_map_some]
  simp

theorem pieces_item (e : Expr) : (toExpr [some e]).pieces = e.inSequence := by
  have h := pieces_map_some [e]
  simpa using h

theorem pieces_append_bar (row row' : Row) : (toExpr (row ++ none :: row')).pieces =
    row.toExpr.pieces ++ " | " :: row'.toExpr.pieces := by
  rw [pieces_toExpr, branches_append_bar, List.map_append, intercalate_append, ← pieces_toExpr,
    ← pieces_toExpr]
  · simp
  · simp [branches_ne_nil]
  · simp [branches_ne_nil]

theorem pieces_bars {rows : List Row} (h : rows ≠ []) : (bars rows).toExpr.pieces =
    [" | "].intercalate (rows.map fun row => row.toExpr.pieces) := by
  induction rows, h using List.recNeNil with
  | singleton row => simp [bars_singleton]
  | cons row rest hrest ih =>
    rw [bars_cons row hrest, pieces_append_bar, ih, List.map_cons,
      List.intercalate_cons_of_ne_nil (by simp [hrest])]
    simp

theorem pieces_next (e f : Expr) (row : Row) : (toExpr (some e :: some f :: row)).pieces =
    e.inSequence ++ " " :: (toExpr (some f :: row)).pieces := by
  obtain ⟨items, more, h⟩ := List.exists_cons_of_ne_nil (branches_ne_nil row)
  simp only [pieces_toExpr, branches_cons_some, h, List.modifyHead_cons, List.map_cons,
    List.intercalate_cons_cons]
  cases more <;> simp

namespace Proper

variable {row' : Row}

theorem append (h : row.Proper) (h' : row'.Proper) : Proper (row ++ row') := by
  induction h with
  | item e => exact next e h'
  | next e _ ih => exact next e ih
  | bar e _ ih => exact bar e ih

theorem append_bar (h : row.Proper) (h' : row'.Proper) : Proper (row ++ none :: row') := by
  induction h with
  | item e => exact bar e h'
  | next e _ ih => exact next e ih
  | bar e _ ih => exact bar e ih

theorem exists_cons (h : row.Proper) : ∃ e rest, row = some e :: rest := by
  cases h <;> exact ⟨_, _, rfl⟩

theorem pieces_cons (e : Expr) (h : row.Proper) : (toExpr (some e :: row)).pieces =
    e.inSequence ++ " " :: row.toExpr.pieces := by
  obtain ⟨f, rest, rfl⟩ := h.exists_cons
  exact pieces_next e f rest

/-- Two rows one after the other are written with a blank between them. -/
theorem pieces_append (h : row.Proper) (h' : row'.Proper) :
    (toExpr (row ++ row')).pieces = row.toExpr.pieces ++ " " :: row'.toExpr.pieces := by
  induction h with
  | item e => rw [List.singleton_append, pieces_cons e h', pieces_item]
  | next e h ih => rw [List.cons_append, pieces_cons e (h.append h'), ih, pieces_cons e h]; simp
  | @bar e row _ ih =>
    have hbar (row : Row) : some e :: none :: row = [some e] ++ none :: row := rfl
    rw [List.cons_append, List.cons_append, hbar, hbar, pieces_append_bar, pieces_append_bar, ih]
    simp

theorem map_some {items : List Expr} (h : items ≠ []) : Proper (items.map some) := by
  induction items, h using List.recNeNil with
  | singleton e => exact item e
  | cons e rest _ ih => exact next e ih

section Rows

variable {rows : List Row}

theorem flatten (hne : rows ≠ []) (h : ∀ row ∈ rows, row.Proper) : Proper rows.flatten := by
  induction rows, hne using List.recNeNil with
  | singleton row => simpa using h
  | cons row rest _ ih =>
    rw [List.forall_mem_cons] at h
    exact h.1.append (ih h.2)

theorem bars (hne : rows ≠ []) (h : ∀ row ∈ rows, row.Proper) : Proper (Row.bars rows) := by
  induction rows, hne using List.recNeNil with
  | singleton row => simpa [bars_singleton] using h
  | cons row rest hrest ih =>
    rw [List.forall_mem_cons] at h
    rw [bars_cons row hrest]
    exact h.1.append_bar (ih h.2)

theorem pieces_flatten (hne : rows ≠ []) (h : ∀ row ∈ rows, row.Proper) :
    (toExpr rows.flatten).pieces = [" "].intercalate (rows.map fun row => row.toExpr.pieces) := by
  induction rows, hne using List.recNeNil with
  | singleton row => simp
  | cons row rest hrest ih =>
    rw [List.forall_mem_cons] at h
    rw [List.flatten_cons, h.1.pieces_append (flatten hrest h.2), ih h.2, List.map_cons,
      List.intercalate_cons_of_ne_nil (by simp [hrest])]
    simp

end Rows

end Proper

end Row

end Ebnf
