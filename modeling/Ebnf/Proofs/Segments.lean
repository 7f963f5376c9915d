import Ebnf.Expr.Literal
/-! The segments of a literal make up its text, and none of them contains the
quote character it is written between. -/

namespace Ebnf.Literal

theorem flatten_cut (text : List Char) : (cut text).flatten = text := by
  induction text with
  | nil => rfl
  | cons c rest ih =>
    unfold cut
    cases h : cut rest with
    | nil => simpa [h] using ih
    | cons segment more =>
      rw [h] at ih
      dsimp only
      split <;> simp [← ih]

theorem cut_ne_nil {text : List Char} (h : text ≠ []) : cut text ≠ [] := by
  intro hcut
  apply h
  rw [← flatten_cut text, hcut]
  rfl

/-- A single quote is alone in its segment. -/
theorem eq_of_mem_cut {text segment : List Char} (h : segment ∈ cut text)
    (hq : '\x27' ∈ segment) : segment = ['\x27'] := by
  induction text generalizing segment with
  | nil => simp [cut] at h
  | cons c rest ih =>
    unfold cut at h
    cases hc : cut rest with
    | nil =>
      rw [hc] at h
      obtain rfl := List.mem_singleton.mp h
      rw [List.mem_singleton] at hq
      rw [hq]
    | cons first more =>
      rw [hc] at h
      dsimp only at h
      have rest_eq {s : List Char} (hs : s ∈ first :: more) (hq : '\x27' ∈ s) : s = ['\x27'] :=
        ih (hc ▸ hs) hq
      split at h
      · rcases List.mem_cons.mp h with rfl | h
        · rw [List.mem_singleton] at hq
          rw [hq]
        · exact rest_eq h hq
      · next hno =>
        rw [not_or] at hno
        rcases List.mem_cons.mp h with rfl | h
        · rcases List.mem_cons.mp hq with hq | hq
          · exact absurd hq.symm hno.1
          · exact absurd hq hno.2
        · exact rest_eq (List.mem_cons_of_mem _ h) hq

theorem flatten_segments (text : List Char) : (segments text).flatten = text := by
  unfold segments
  split
  · exact flatten_cut text
  · simp

theorem segments_ne_nil (text : List Char) : segments text ≠ [] := by
  unfold segments
  split
  · next h => exact cut_ne_nil (List.ne_nil_of_mem h.1)
  · simp

theorem not_both_of_mem {text segment : List Char} (h : segment ∈ segments text) :
    ¬ ('\x27' ∈ segment ∧ '"' ∈ segment) := by
  rintro ⟨hs, hd⟩
  unfold segments at h
  split at h
  · rw [eq_of_mem_cut h hs] at hd
    simp at hd
  · next hno =>
    obtain rfl := List.mem_singleton.mp h
    exact hno ⟨hs, hd⟩

theorem segments_of_mem {text segment : List Char} (h : segment ∈ segments text) :
    segments segment = [segment] :=
  if_neg (not_both_of_mem h)

/-- The character a segment is quoted with. -/
def mark (segment : List Char) : Char := if '\x27' ∈ segment then '"' else '\x27'

theorem toList_quote (segment : List Char) :
    (quote segment).toList = mark segment :: (segment ++ [mark segment]) := by
  unfold quote mark
  split <;> simp

theorem mark_eq (segment : List Char) : mark segment = '"' ∨ mark segment = '\x27' := by
  unfold mark
  split <;> simp

theorem mark_not_mem {text segment : List Char} (h : segment ∈ segments text) :
    mark segment ∉ segment := by
  unfold mark
  split
  · next hq => exact fun hd => not_both_of_mem h ⟨hq, hd⟩
  · assumption

end Ebnf.Literal
