import Ebnf.Expr.Rendering
import Ebnf.Proofs.Segments
import Mathlib.Data.List.Induction
import Mathlib.Data.List.TakeWhile
/-! Quoted text read from left to right, where a quotation ends at the first quote
like the one it started with. The reader takes a row of quotations with a blank
between each of them and the next, and nothing else; a literal is written as such
a row, and its text is what stands between the quotes. -/

namespace Ebnf

/-- A text between two quotes that do not occur in it. -/
structure Quotation where
  mark : Char
  content : List Char
  isQuote : mark = '"' ∨ mark = '\x27'
  not_mem : mark ∉ content
  deriving DecidableEq

namespace Quotation

def chars (q : Quotation) : List Char := q.mark :: (q.content ++ [q.mark])

/-- Quotations with a blank between each of them and the next. -/
def row (qs : List Quotation) : List Char := [' '].intercalate (qs.map chars)

theorem not_mem_takeWhile (mark : Char) (text : List Char) : mark ∉ text.takeWhile (· ≠ mark) := by
  intro h
  have hne := List.mem_takeWhile_imp h
  simp at hne

/-- The quotation that a text starts with, and what comes after it. -/
def first? : List Char → Option (Quotation × List Char)
  | [] => none
  | mark :: rest =>
    if h : mark = '"' ∨ mark = '\x27' then
      match rest.dropWhile (· ≠ mark) with
      | [] => none
      | _ :: after => some (⟨mark, rest.takeWhile (· ≠ mark), h, not_mem_takeWhile mark rest⟩, after)
    else none

theorem first?_chars (q : Quotation) (after : List Char) : first? (q.chars ++ after) = some (q, after) := by
  obtain ⟨mark, content, hquote, hmem⟩ := q
  have hne : ∀ c ∈ content, decide (c ≠ mark) = true := by
    intro c hc
    rw [decide_eq_true_iff]
    rintro rfl
    exact hmem hc
  have htext : chars ⟨mark, content, hquote, hmem⟩ ++ after = mark :: (content ++ mark :: after) := by
    simp [chars]
  have hdrop : (content ++ mark :: after).dropWhile (· ≠ mark) = mark :: after := by
    rw [List.dropWhile_append_of_pos hne, List.dropWhile_cons_of_neg (by simp)]
  have htake : (content ++ mark :: after).takeWhile (· ≠ mark) = content := by
    rw [List.takeWhile_append_of_pos hne, List.takeWhile_cons_of_neg (by simp), List.append_nil]
  rw [htext, first?, dif_pos hquote, hdrop]
  simp only [htake]

theorem eq_of_first?_eq_some {text after : List Char} {q : Quotation} (h : first? text = some (q, after)) :
    text = q.chars ++ after := by
  cases text with
  | nil => cases h
  | cons mark rest =>
    rw [first?] at h
    split at h
    · split at h
      · cases h
      · next c more hdrop =>
        -- the scan stops only at a quote like the first one
        have hstop : c = mark := by
          have hhead := List.head?_dropWhile_not (· ≠ mark) rest
          rw [hdrop] at hhead
          simpa using hhead
        cases h
        have hrest : rest = rest.takeWhile (· ≠ mark) ++ mark :: after := by
          rw [← hstop, ← hdrop, hstop, List.takeWhile_append_dropWhile]
        rw [chars, List.cons_append, List.append_assoc, List.singleton_append, ← hrest]
    · cases h

/-- The quotations of a row, if the text is one. -/
def read? (text : List Char) : Option (List Quotation) :=
  match _h : first? text with
  | some (q, []) => some [q]
  | some (q, ' ' :: more) => (q :: ·) <$> read? more
  | _ => none
  termination_by text.length
  decreasing_by
    rw [eq_of_first?_eq_some _h]
    simp only [List.length_append, List.length_cons]
    omega

theorem row_singleton (q : Quotation) : row [q] = q.chars := by
  simp [row]

theorem row_cons (q : Quotation) {qs : List Quotation} (h : qs ≠ []) :
    row (q :: qs) = q.chars ++ ' ' :: row qs := by
  rw [row, List.map_cons, List.intercalate_cons_of_ne_nil (by simp [h]), row]
  simp

theorem read?_row {qs : List Quotation} (h : qs ≠ []) : read? (row qs) = some qs := by
  induction qs, h using List.recNeNil with
  | singleton q =>
    have hfirst := first?_chars q []
    rw [List.append_nil, ← row_singleton] at hfirst
    rw [read?]
    split <;> simp_all
  | cons q qs hqs ih =>
    have hfirst := first?_chars q (' ' :: row qs)
    rw [← row_cons q hqs] at hfirst
    rw [read?]
    split <;> simp_all

theorem eq_row_of_read?_eq_some {text : List Char} {qs : List Quotation} (h : read? text = some qs) :
    qs ≠ [] ∧ text = row qs := by
  fun_induction read? text generalizing qs with
  | case1 text q hfirst =>
    cases h
    rw [row_singleton, eq_of_first?_eq_some hfirst, List.append_nil]
    exact ⟨by simp, rfl⟩
  | case2 text q more hfirst ih =>
    obtain ⟨rest, hrest, rfl⟩ := Option.map_eq_some_iff.1 h
    obtain ⟨hne, hmore⟩ := ih hrest
    rw [row_cons q hne, ← hmore]
    exact ⟨by simp, eq_of_first?_eq_some hfirst⟩
  | case3 => cases h

/-- The reader takes rows of quotations, and gives back what they are rows of. -/
theorem read?_eq_some_iff {text : List Char} {qs : List Quotation} :
    read? text = some qs ↔ qs ≠ [] ∧ text = row qs :=
  ⟨eq_row_of_read?_eq_some, fun h => h.2 ▸ read?_row h.1⟩

end Quotation

namespace Literal

theorem ne_nil_of_mem_cut {text segment : List Char} (h : segment ∈ cut text) : segment ≠ [] := by
  induction text generalizing segment with
  | nil => simp [cut] at h
  | cons c rest ih =>
    unfold cut at h
    cases hc : cut rest with
    | nil =>
      rw [hc] at h
      obtain rfl := List.mem_singleton.mp h
      exact List.cons_ne_nil _ _
    | cons first more =>
      rw [hc] at h ih
      dsimp only at h
      split at h
      · rcases List.mem_cons.mp h with rfl | h
        · exact List.cons_ne_nil _ _
        · exact ih h
      · rcases List.mem_cons.mp h with rfl | h
        · exact List.cons_ne_nil _ _
        · exact ih (List.mem_cons_of_mem _ h)

/-- Whether a text has both kinds of quotes in it. -/
def Mixed (text : List Char) : Prop := '\x27' ∈ text ∧ '"' ∈ text

theorem ne_nil_of_mem_segments {text segment : List Char} (hm : Mixed text) (h : segment ∈ segments text) :
    segment ≠ [] := by
  have hcut : segments text = cut text := if_pos hm
  exact ne_nil_of_mem_cut (hcut ▸ h)

theorem length_segments_eq_one_iff (text : List Char) : (segments text).length = 1 ↔ ¬ Mixed text := by
  constructor
  · intro h hm
    obtain ⟨segment, hone⟩ := List.length_eq_one_iff.1 h
    have hmem : segment ∈ segments text := by simp [hone]
    have hall : segment = text := by
      rw [← flatten_segments text, hone, List.flatten_singleton]
    exact not_both_of_mem hmem (hall ▸ hm)
  · intro hm
    have hone : segments text = [text] := if_neg hm
    rw [hone, List.length_singleton]

/-- The quotations a text is written as. -/
def quotations (text : List Char) : List Quotation :=
  (segments text).attach.map fun s => ⟨mark s.1, s.1, mark_eq s.1, mark_not_mem s.2⟩

theorem map_content_quotations (text : List Char) :
    (quotations text).map Quotation.content = segments text := by
  rw [quotations, List.map_map]
  exact List.attach_map_subtype_val _

theorem map_chars_quotations (text : List Char) :
    (quotations text).map Quotation.chars = (segments text).map fun s => (quote s).toList := by
  rw [quotations, List.map_map, ← List.attach_map_val (f := fun s => (quote s).toList)]
  refine List.map_congr_left fun s _ => ?_
  rw [toList_quote]
  rfl

theorem toList_join_intersperse (pieces : List String) :
    (String.join (pieces.intersperse " ")).toList = [' '].intercalate (pieces.map String.toList) := by
  rw [String.toList_join]
  induction pieces with
  | nil => rfl
  | cons piece rest ih =>
    cases rest with
    | nil => simp
    | cons next rest =>
      have hmap : (piece :: next :: rest).map String.toList
          = piece.toList :: (next :: rest).map String.toList := List.map_cons
      rw [List.intersperse_cons_cons, List.flatMap_cons, List.flatMap_cons, ih, hmap,
        List.intercalate_cons_of_ne_nil (by simp), List.append_assoc]
      rfl

theorem toList_text (text : String) :
    (Expr.literal text).text.toList = Quotation.row (quotations text.toList) := by
  rw [Expr.text, Expr.pieces, pieces, toList_join_intersperse, Quotation.row, map_chars_quotations,
    List.map_map]
  rfl

/-- A literal is written as a row of quotations that reads back as its text: as a
single one unless both kinds of quotes are in it, and else as none that is empty. -/
theorem text_reads_back (text : String) :
    ∃ qs : List Quotation, qs ≠ [] ∧
      (Expr.literal text).text.toList = Quotation.row qs ∧
      Quotation.read? (Expr.literal text).text.toList = some qs ∧
      qs.flatMap Quotation.content = text.toList ∧
      (qs.length = 1 ↔ ¬ Mixed text.toList) ∧
      (Mixed text.toList → ∀ q ∈ qs, q.content ≠ []) := by
  have hcontent := map_content_quotations text.toList
  have hne : quotations text.toList ≠ [] := by
    intro h
    rw [h] at hcontent
    exact segments_ne_nil text.toList hcontent.symm
  refine ⟨quotations text.toList, hne, toList_text text, ?_, ?_, ?_, fun hm q hq => ?_⟩
  · exact Quotation.read?_eq_some_iff.2 ⟨hne, toList_text text⟩
  · rw [List.flatMap_def, hcontent, flatten_segments]
  · rw [← length_segments_eq_one_iff, ← hcontent, List.length_map]
  · refine ne_nil_of_mem_segments hm ?_
    rw [← hcontent]
    exact List.mem_map_of_mem hq

end Literal

end Ebnf
