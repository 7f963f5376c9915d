import Ebnf.Proofs.Reading
/-! Bodies in normal form, which nothing but the text they are written with has to
tell apart: sequences and choices have at least two members, none of which is of
the same kind, and a literal needs no cutting up. A body that is read back has a
choice and a sequence around everything; without those of one member it is again
the body that was written, if that is in normal form. -/

namespace Ebnf

theorem Row.branches_bars {rows : List Row} (h : rows ≠ []) :
    (bars rows).branches = rows.flatMap branches := by
  induction rows, h using List.recNeNil with
  | singleton row => simp [bars_singleton]
  | cons row rest hrest ih => rw [bars_cons row hrest, branches_append_bar, ih, List.flatMap_cons]

namespace Expr

def isSequence : Expr → Bool
  | sequence _ => true
  | _ => false

def isChoice : Expr → Bool
  | alternatives _ => true
  | _ => false

/-- Whether a body is in normal form. -/
def normal : Expr → Bool := everywhere fun
  | literal text => decide ¬ ('\x27' ∈ text.toList ∧ '"' ∈ text.toList)
  | characterSet name | nonTerminal name => isIdentifier name
  | sequence parts => decide (2 ≤ parts.length) && parts.all fun e => !e.isSequence
  | alternatives branches => decide (2 ≤ branches.length) && branches.all fun e => !e.isChoice
  | _ => true

theorem normal_sequence (parts : List Expr) : (sequence parts).normal ↔
    2 ≤ parts.length ∧ (∀ e ∈ parts, e.isSequence = false) ∧ ∀ e ∈ parts, e.normal := by
  simp [normal, everywhere_sequence, and_assoc]

theorem normal_alternatives (branches : List Expr) : (alternatives branches).normal ↔
    2 ≤ branches.length ∧ (∀ e ∈ branches, e.isChoice = false) ∧ ∀ e ∈ branches, e.normal := by
  simp [normal, everywhere_alternatives, and_assoc]

theorem normal_optional (body : Expr) : (optional body).normal ↔ body.normal := by
  simp [normal, everywhere]

theorem normal_repetition (min : UInt64) (max : Option UInt64) (body : Expr) :
    (repetition min max body).normal ↔ body.normal := by
  simp [normal, everywhere]

theorem segments_of_normal {text : String} (h : (literal text).normal) :
    Literal.segments text.toList = [text.toList] := by
  have hno : ¬ ('\x27' ∈ text.toList ∧ '"' ∈ text.toList) := of_decide_eq_true h
  exact if_neg hno

theorem wellFormed_of_normal {e : Expr} (h : e.normal) : e.wellFormed := by
  induction e with
  | epsilon | literal => rfl
  | characterSet | nonTerminal => exact h
  | sequence parts ih =>
    rw [normal_sequence] at h
    rw [wellFormed_sequence]
    exact fun f hf => ih f hf (h.2.2 f hf)
  | alternatives branches ih =>
    rw [normal_alternatives] at h
    rw [wellFormed_alternatives]
    refine ⟨?_, fun f hf => ih f hf (h.2.2 f hf)⟩
    rintro rfl
    simp at h
  | optional body ih =>
    rw [normal_optional] at h
    exact (wellFormed_optional body).mpr (ih h)
  | repetition min max body ih =>
    rw [normal_repetition] at h
    exact (wellFormed_repetition min max body).mpr (ih h)

/-- In normal form every choice in a sequence has its parentheses. -/
theorem isChoice_eq_false {e : Expr} (h : e.normal) (hp : ¬ e.needsParens) : e.isChoice = false := by
  cases e with
  | alternatives branches =>
    rw [normal_alternatives] at h
    match branches with
    | [] => simp at h
    | [_] => simp at h
    | _ :: _ :: _ => exact absurd rfl hp
  | _ => rfl

/-- A single body as it is, and several put together. -/
def gather (build : List Expr → Expr) : List Expr → Expr
  | [e] => e
  | es => build es

theorem gather_of_two_le {build : List Expr → Expr} {es : List Expr} (h : 2 ≤ es.length) :
    gather build es = build es := by
  match es with
  | [] => rfl
  | [_] => simp at h
  | _ :: _ :: _ => rfl

mutual

/-- The body without any sequence or choice of a single member. -/
def tidy : Expr → Expr
  | sequence parts => gather sequence (tidyAll parts)
  | alternatives branches => gather alternatives (tidyAll branches)
  | optional body => optional (tidy body)
  | repetition min max body => repetition min max (tidy body)
  | e => e

def tidyAll : List Expr → List Expr
  | [] => []
  | e :: rest => tidy e :: tidyAll rest

end

theorem tidyAll_eq_map (es : List Expr) : tidyAll es = es.map tidy := by
  induction es with
  | nil => rfl
  | cons e rest ih => rw [tidyAll, ih, List.map_cons]

theorem tidy_sequence (parts : List Expr) : (sequence parts).tidy = gather sequence (parts.map tidy) := by
  rw [tidy, tidyAll_eq_map]

theorem tidy_toExpr (row : Row) :
    row.toExpr.tidy = gather alternatives (row.branches.map fun items => (sequence items).tidy) := by
  rw [Row.toExpr, tidy, tidyAll_eq_map, List.map_map]
  rfl

/-- Tidied up, the row of a body is the body again. Only a choice has bars in its
row, and only a choice or a sequence more than one item. -/
structure Recovered (e : Expr) : Prop where
  tidy_eq : e.layout.toExpr.tidy = e
  items : e.isChoice = false → ∃ items : List Expr, e.layout = items.map some ∧ (sequence items).tidy = e
  item : e.isChoice = false → e.isSequence = false → ∃ item : Expr, e.layout = [some item] ∧ item.tidy = e

theorem tidy_toExpr_of_items {row : Row} {items : List Expr} (h : row = items.map some) :
    row.toExpr.tidy = (sequence items).tidy := by
  rw [tidy_toExpr, h, Row.branches_map_some]
  rfl

theorem Recovered.of_item {e item : Expr} (h : e.layout = [some item]) (hitem : item.tidy = e) : e.Recovered := by
  have htidy : (sequence [item]).tidy = e := by
    rw [tidy_sequence]
    exact hitem
  have hlayout : e.layout = [item].map some := h
  refine ⟨?_, fun _ => ⟨[item], hlayout, htidy⟩, fun _ _ => ⟨item, h, hitem⟩⟩
  rw [tidy_toExpr_of_items hlayout, htidy]

/-- The row of a part of a sequence is a single item. -/
theorem Recovered.exists_item {e : Expr} (h : e.Recovered) (hn : e.normal) (hs : e.isSequence = false) :
    ∃ item : Expr, e.partRow = [some item] ∧ item.tidy = e := by
  unfold partRow
  split
  · exact ⟨_, rfl, h.tidy_eq⟩
  · next hp => exact h.item (isChoice_eq_false hn hp) hs

theorem exists_items {parts : List Expr}
    (h : ∀ e ∈ parts, ∃ item : Expr, e.partRow = [some item] ∧ item.tidy = e) :
    ∃ items : List Expr, (parts.map partRow).flatten = items.map some ∧ items.map tidy = parts := by
  induction parts with
  | nil => exact ⟨[], rfl, rfl⟩
  | cons e rest ih =>
    rw [List.forall_mem_cons] at h
    obtain ⟨item, hrow, hitem⟩ := h.1
    obtain ⟨items, hrows, hitems⟩ := ih h.2
    refine ⟨item :: items, ?_, ?_⟩
    · rw [List.map_cons, List.flatten_cons, hrow, hrows]
      rfl
    · rw [List.map_cons, hitem, hitems]

theorem map_tidy_branches {branches : List Expr}
    (h : ∀ e ∈ branches, ∃ items : List Expr, e.layout = items.map some ∧ (sequence items).tidy = e) :
    ((branches.map layout).flatMap Row.branches).map (fun items => (sequence items).tidy) = branches := by
  induction branches with
  | nil => rfl
  | cons e rest ih =>
    rw [List.forall_mem_cons] at h
    obtain ⟨items, hlayout, hitems⟩ := h.1
    rw [List.map_cons, List.flatMap_cons, hlayout, Row.branches_map_some, List.map_append, ih h.2,
      List.map_singleton, hitems, List.singleton_append]

theorem recovered_of_normal {e : Expr} (h : e.normal) : e.Recovered := by
  induction e with
  | epsilon | characterSet | nonTerminal => exact .of_item rfl rfl
  | literal text =>
    have hlayout : (literal text).layout = [some (literal text)] := by
      rw [layout, segments_of_normal h]
      simp
    exact .of_item hlayout rfl
  | sequence parts ih =>
    rw [normal_sequence] at h
    obtain ⟨hlen, hflat, hnormal⟩ := h
    obtain ⟨items, hrow, hitems⟩ := exists_items fun f hf =>
      (ih f hf (hnormal f hf)).exists_item (hnormal f hf) (hflat f hf)
    have hlayout : (sequence parts).layout = items.map some := by
      cases parts with
      | nil => simp at hlen
      | cons f rest => rw [layout_sequence_cons, hrow]
    have htidy : (sequence items).tidy = sequence parts := by
      rw [tidy_sequence, hitems, gather_of_two_le hlen]
    refine ⟨?_, fun _ => ⟨items, hlayout, htidy⟩, fun _ hs => ?_⟩
    · rw [tidy_toExpr_of_items hlayout, htidy]
    · cases hs
  | alternatives branches ih =>
    rw [normal_alternatives] at h
    obtain ⟨hlen, hflat, hnormal⟩ := h
    have htidy := map_tidy_branches fun f hf => (ih f hf (hnormal f hf)).items (hflat f hf)
    have hne : branches.map layout ≠ [] := by
      intro hnil
      rw [List.map_eq_nil_iff.mp hnil] at hlen
      simp at hlen
    refine ⟨?_, fun hc => ?_, fun hc => ?_⟩
    · rw [layout_alternatives, tidy_toExpr, Row.branches_bars hne, htidy, gather_of_two_le hlen]
    · cases hc
    · cases hc
  | optional body ih =>
    rw [normal_optional] at h
    refine .of_item rfl ?_
    rw [tidy, (ih h).tidy_eq]
  | repetition min max body ih =>
    rw [normal_repetition] at h
    refine .of_item rfl ?_
    rw [tidy, (ih h).tidy_eq]

/-- Read back and tidied up, a body in normal form is what it was. -/
theorem tidy_ofText {e : Expr} (h : e.normal) : (ofText e.text).tidy = e := by
  rw [ofText_text (wellFormed_of_normal h), (recovered_of_normal h).tidy_eq]

/-- No two bodies in normal form have the same text. -/
theorem text_determines_normal {e : Expr} (he : e.normal) :
    ∀ f : Expr, f.normal → f.text = e.text → f = e := by
  intro f hf htext
  calc
    f = (ofText f.text).tidy := (tidy_ofText hf).symm
    _ = (ofText e.text).tidy := by rw [htext]
    _ = e := tidy_ofText he

/-- Every kind of bracket, with the same characters in a literal. -/
def everyBracket : Expr :=
  alternatives [
    sequence [repetition 0 (some 2) (optional epsilon), alternatives [literal "it's (a | b)]", characterSet "a"]],
    repetition 0 none (sequence [literal "\x7b \"", literal "", repetition 18446744073709551615 none (nonTerminal "b_1")]),
    epsilon]

theorem text_determines_everyBracket : everyBracket.normal ∧
    everyBracket.text = "([()])\x7b0,2\x7d (\"it's (a | b)]\" | [:a:]) | \x7b'\x7b \"' '' (b_1)\x7b18446744073709551615,\x7d\x7d | ()" ∧
    ∀ f : Expr, f.normal → f.text = everyBracket.text → f = everyBracket := by
  have hnormal : everyBracket.normal := by decide
  exact ⟨hnormal, by decide, text_determines_normal hnormal⟩

end Expr

end Ebnf
