import Ebnf.Proofs.Row
import Ebnf.Proofs.Segments
/-! The row a body is written as: sequences in sequences, choices in choices and
the segments of a literal lie next to each other, and only what has brackets
around it stays a body of its own. -/

namespace Ebnf.Expr

mutual

def layout : Expr → Row
  | epsilon => [some epsilon]
  | literal text =>
    ((Literal.segments text.toList).map fun s => literal (String.ofList s)).map some
  | characterSet name => [some (characterSet name)]
  | nonTerminal name => [some (nonTerminal name)]
  | sequence parts => if parts.isEmpty then [some (sequence [])] else (partRows parts).flatten
  | alternatives branches => Row.bars (branchRows branches)
  | optional body => [some (optional (layout body).toExpr)]
  | repetition min max body => [some (repetition min max (layout body).toExpr)]

/-- The rows of the parts of a sequence. One in parentheses is a single item. -/
def partRows : List Expr → List Row
  | [] => []
  | e :: rest => (if e.needsParens then [some (layout e).toExpr] else layout e) :: partRows rest

def branchRows : List Expr → List Row
  | [] => []
  | e :: rest => layout e :: branchRows rest

end

/-- The row of a body as a part of a sequence. -/
def partRow (e : Expr) : Row := if e.needsParens then [some e.layout.toExpr] else e.layout

theorem partRows_eq_map (parts : List Expr) : partRows parts = parts.map partRow := by
  induction parts with
  | nil => rfl
  | cons e rest ih => rw [partRows, ih, List.map_cons, partRow]

theorem branchRows_eq_map (branches : List Expr) : branchRows branches = branches.map layout := by
  induction branches with
  | nil => rfl
  | cons e rest ih => rw [branchRows, ih, List.map_cons]

theorem layout_sequence_cons (e : Expr) (rest : List Expr) :
    (sequence (e :: rest)).layout = ((e :: rest).map partRow).flatten := by
  rw [layout, partRows_eq_map]
  rfl

theorem layout_alternatives (branches : List Expr) :
    (alternatives branches).layout = Row.bars (branches.map layout) := by
  rw [layout, branchRows_eq_map]

theorem none_mem_layout {e : Expr} (h : e.needsParens) : none ∈ e.layout := by
  unfold needsParens at h
  split at h
  · rw [layout_alternatives, List.map_cons, Row.bars_cons _ (by simp)]
    exact List.mem_append_right _ List.mem_cons_self
  · cases h

theorem proper_layout {e : Expr} (h : e.wellFormed) : e.layout.Proper := by
  induction e with
  | epsilon | characterSet | nonTerminal | optional | repetition => exact .item _
  | literal text =>
    refine .map_some ?_
    simp [Literal.segments_ne_nil]
  | sequence parts ih =>
    rw [wellFormed_sequence] at h
    cases parts with
    | nil => exact .item _
    | cons e rest =>
      rw [layout_sequence_cons]
      refine .flatten (by simp) (List.forall_mem_map.mpr fun f hf => ?_)
      unfold partRow
      split
      · exact .item _
      · exact ih f hf (h f hf)
  | alternatives branches ih =>
    rw [wellFormed_alternatives] at h
    rw [layout_alternatives]
    exact .bars (by simp [h.1]) (List.forall_mem_map.mpr fun f hf => ih f hf (h.2 f hf))

theorem proper_partRow {e : Expr} (h : e.wellFormed) : e.partRow.Proper := by
  unfold partRow
  split
  · exact .item _
  · exact proper_layout h

theorem pieces_partRow {e : Expr} (h : e.layout.toExpr.pieces = e.pieces) :
    e.partRow.toExpr.pieces = e.inSequence := by
  unfold partRow inSequence
  split
  · next hp =>
    rw [Row.pieces_item, inSequence, if_pos (Row.needsParens_toExpr (none_mem_layout hp)), h]
  · exact h

theorem pieces_segment {text segment : List Char} (h : segment ∈ Literal.segments text) :
    (literal (String.ofList segment)).inSequence = [Literal.quote segment] := by
  rw [inSequence_eq rfl, pieces, Literal.pieces, String.toList_ofList, Literal.segments_of_mem h]
  rfl

theorem intercalate_map_singleton {α β : Type} (sep : β) (f : α → β) (xs : List α) :
    [sep].intercalate (xs.map fun x => [f x]) = (xs.map f).intersperse sep := by
  induction xs with
  | nil => rfl
  | cons x rest ih =>
    cases rest with
    | nil => rfl
    | cons x' rest =>
      rw [List.map_cons, List.intercalate_cons_of_ne_nil (by simp), ih]
      rfl

/-- Laying a body out does not change how it is written. -/
theorem pieces_layout {e : Expr} (h : e.wellFormed) : e.layout.toExpr.pieces = e.pieces := by
  induction e with
  | epsilon | characterSet | nonTerminal => exact Row.pieces_item _
  | literal text =>
    rw [layout, Row.pieces_map_some, List.map_map, pieces, Literal.pieces,
      ← intercalate_map_singleton]
    congr 1
    exact List.map_congr_left fun s hs => pieces_segment hs
  | sequence parts ih =>
    rw [wellFormed_sequence] at h
    cases parts with
    | nil => rfl
    | cons e rest =>
      rw [layout_sequence_cons, Row.Proper.pieces_flatten (by simp), List.map_map, pieces,
        partPieces_eq_map]
      · congr 1
        exact List.map_congr_left fun f hf => pieces_partRow (ih f hf (h f hf))
      · exact List.forall_mem_map.mpr fun f hf => proper_partRow (h f hf)
  | alternatives branches ih =>
    rw [wellFormed_alternatives] at h
    rw [layout_alternatives, Row.pieces_bars (by simp [h.1]), List.map_map, pieces,
      branchPieces_eq_map]
    congr 1
    exact List.map_congr_left fun f hf => ih f hf (h.2 f hf)
  | optional body ih =>
    rw [wellFormed_optional] at h
    rw [layout, Row.pieces_item, inSequence_eq rfl, pieces, ih h, pieces]
  | repetition min max body ih =>
    rw [wellFormed_repetition] at h
    rw [layout, Row.pieces_item, inSequence_eq rfl, pieces, ih h, pieces]

theorem text_layout {e : Expr} (h : e.wellFormed) : e.layout.toExpr.text = e.text := by
  rw [text, text, pieces_layout h]

theorem sound_layout {e : Expr} (h : e.wellFormed) : ∀ item, some item ∈ e.layout → item.Sound := by
  induction e with
  | epsilon =>
    intro item hitem
    obtain rfl := Option.some.inj (List.mem_singleton.mp hitem)
    exact ⟨rfl, rfl, rfl⟩
  | literal text =>
    intro item hitem
    rw [layout, List.map_map] at hitem
    obtain ⟨s, -, hs⟩ := List.mem_map.mp hitem
    obtain rfl := Option.some.inj hs
    exact ⟨rfl, rfl, rfl⟩
  | characterSet name | nonTerminal name =>
    intro item hitem
    obtain rfl := Option.some.inj (List.mem_singleton.mp hitem)
    exact ⟨h, rfl, rfl⟩
  | sequence parts ih =>
    intro item hitem
    rw [wellFormed_sequence] at h
    cases parts with
    | nil =>
      obtain rfl := Option.some.inj (List.mem_singleton.mp hitem)
      exact ⟨rfl, rfl, rfl⟩
    | cons e rest =>
      rw [layout_sequence_cons] at hitem
      obtain ⟨row, hrow, hmem⟩ := List.mem_flatten.mp hitem
      obtain ⟨f, hf, rfl⟩ := List.mem_map.mp hrow
      have hlayout := ih f hf (h f hf)
      unfold partRow at hmem
      split at hmem
      · -- in parentheses the part is one item, and a row is never in disguise
        obtain rfl := Option.some.inj (List.mem_singleton.mp hmem)
        exact Row.sound_toExpr hlayout
      · exact hlayout item hmem
  | alternatives branches ih =>
    intro item hitem
    rw [wellFormed_alternatives] at h
    rw [layout_alternatives] at hitem
    obtain ⟨row, hrow, hmem⟩ := Row.mem_bars (by simp [h.1]) hitem
    obtain ⟨f, hf, rfl⟩ := List.mem_map.mp hrow
    exact ih f hf (h.2 f hf) item hmem
  | optional body ih =>
    intro item hitem
    have hbody := Row.sound_toExpr (ih ((wellFormed_optional body).mp h))
    obtain rfl := Option.some.inj (List.mem_singleton.mp hitem)
    exact ⟨(wellFormed_optional _).mpr hbody.wellFormed, (exposed_optional _).mpr hbody.exposed, rfl⟩
  | repetition min max body ih =>
    intro item hitem
    have hbody := Row.sound_toExpr (ih ((wellFormed_repetition min max body).mp h))
    obtain rfl := Option.some.inj (List.mem_singleton.mp hitem)
    exact ⟨(wellFormed_repetition _ _ _).mpr hbody.wellFormed,
      (exposed_repetition _ _ _).mpr hbody.exposed, rfl⟩

/-- The body that the row of another one stands for meets every demand. -/
theorem sound_toExpr_layout {e : Expr} (h : e.wellFormed) : e.layout.toExpr.Sound :=
  Row.sound_toExpr (sound_layout h)

end Ebnf.Expr
