import Ebnf.Proofs.Layout
import Ebnf.Proofs.Scanner
/-! What is written reads back as the row it was laid out in: first for each way
of putting pieces together, then for bodies. -/

namespace Ebnf

namespace Scanner

def feed (s : Scanner) (pieces : List String) : Scanner :=
  pieces.foldl (fun s piece => s.run piece.toList) s

theorem feed_cons (s : Scanner) (piece : String) (pieces : List String) :
    s.feed (piece :: pieces) = (s.run piece.toList).feed pieces :=
  rfl

theorem feed_append (s : Scanner) (pieces more : List String) :
    s.feed (pieces ++ more) = (s.feed pieces).feed more :=
  List.foldl_append

theorem feed_eq_run (s : Scanner) (pieces : List String) :
    s.feed pieces = s.run (String.join pieces).toList := by
  rw [String.toList_join, run, List.foldl_flatMap]
  rfl

/-- The pieces are taken for the row, behind whatever came before them. -/
def Reads (pieces : List String) (row : Row) : Prop :=
  ∀ before outer, Rests (feed ⟨before, outer, .ready⟩ pieces) (before ++ row) outer

theorem reads_nil : Reads [] [some (.sequence [])] :=
  fun _ _ => rests_ready

theorem reads_epsilon : Reads ["()"] [some .epsilon] := by
  intro before outer
  exact rests_closed [some (.sequence [])]

theorem group_eq {row : Row} (h : none ∈ row) : group row = row.toExpr := by
  refine if_neg fun heq => ?_
  rw [heq] at h
  cases List.mem_singleton.mp h

theorem not_mem_toDigits {c : Char} (hc : c.isDigit = false) (n : Nat) : c ∉ Nat.toDigits 10 n := by
  intro h
  rw [Nat.isDigit_of_mem_toDigits (by decide : 0 < 10) (by decide) h] at hc
  cases hc

theorem bound_toDigits (n : UInt64) : Token.bound (Nat.toDigits 10 n.toNat) = n := by
  rw [Token.bound, Nat.ofDigitChars_ten_toDigits, UInt64.ofNat_toNat]

/-- The digits of an upper bound, if there is one. -/
def upperDigits (max : Option UInt64) : List Char := max.elim [] fun n => Nat.toDigits 10 n.toNat

theorem not_mem_upperDigits {c : Char} (hc : c.isDigit = false) (max : Option UInt64) :
    c ∉ upperDigits max := by
  cases max with
  | none => simp [upperDigits]
  | some n => exact not_mem_toDigits hc n.toNat

theorem bound_upperDigits (max : Option UInt64) :
    (if (upperDigits max).isEmpty then none else some (Token.bound (upperDigits max))) = max := by
  cases max with
  | none => rfl
  | some n =>
    rw [if_neg (by simp [upperDigits])]
    exact congrArg some (bound_toDigits n)

theorem toList_boundsText (min : UInt64) (max : Option UInt64) : (Expr.boundsText min max).toList =
    '\x7b' :: ((Nat.toDigits 10 min.toNat ++ [',']) ++ (upperDigits max ++ ['\x7d'])) := by
  cases max <;> simp [Expr.boundsText, upperDigits]

namespace Reads

variable {pieces pieces' : List String} {row row' : Row}

theorem blank (h : Reads pieces row) (h' : Reads pieces' row') :
    Reads (pieces ++ " " :: pieces') (row ++ row') := by
  intro before outer
  have hstep : (feed ⟨before, outer, .ready⟩ pieces).run " ".toList
      = ⟨before ++ row, outer, .ready⟩ :=
    (h before outer).step_eq ' ' (by simp)
  rw [feed_append, feed_cons, hstep, ← List.append_assoc]
  exact h' (before ++ row) outer

theorem bar (h : Reads pieces row) (h' : Reads pieces' row') :
    Reads (pieces ++ " | " :: pieces') (row ++ none :: row') := by
  intro before outer
  have hstep : (feed ⟨before, outer, .ready⟩ pieces).step ' ' = ⟨before ++ row, outer, .ready⟩ :=
    (h before outer).step_eq ' ' (by simp)
  have hrun : (feed ⟨before, outer, .ready⟩ pieces).run " | ".toList
      = ⟨before ++ row ++ [none], outer, .ready⟩ := by
    rw [show " | ".toList = [' ', '|', ' '] from rfl, run_cons, hstep]
    rfl
  have hrow : before ++ (row ++ none :: row') = before ++ row ++ [none] ++ row' := by simp
  rw [feed_append, feed_cons, hrun, hrow]
  exact h' (before ++ row ++ [none]) outer

theorem feed_bracketed (h : Reads pieces row) (left right : String) (closing : Char)
    (hleft : ∀ before outer, run ⟨before, outer, .ready⟩ left.toList = ⟨[], before :: outer, .ready⟩)
    (hright : right.toList = [closing]) (hc : closing ∈ [' ', ')', ']', '\x7d'])
    (before : Row) (outer : List Row) :
    feed ⟨before, outer, .ready⟩ (left :: pieces ++ [right]) = delimit row (before :: outer) closing := by
  rw [List.cons_append, feed_cons, hleft, feed_append, feed_cons, hright]
  exact (h [] (before :: outer)).step_eq closing hc

theorem parens (h : Reads pieces row) (hbar : none ∈ row) :
    Reads ("(" :: pieces ++ [")"]) [some row.toExpr] := by
  intro before outer
  rw [h.feed_bracketed "(" ")" ')' (fun _ _ => rfl) rfl (by simp), ← group_eq hbar]
  exact rests_closed row

theorem brackets (h : Reads pieces row) :
    Reads ("[" :: pieces ++ ["]"]) [some (.optional row.toExpr)] := by
  intro before outer
  rw [h.feed_bracketed "[" "]" ']' (fun _ _ => rfl) rfl (by simp)]
  exact rests_held _

theorem braces (h : Reads pieces row) :
    Reads ("\x7b" :: pieces ++ ["\x7d"]) [some (.repetition 0 none row.toExpr)] := by
  intro before outer
  rw [h.feed_bracketed "\x7b" "\x7d" '\x7d' (fun _ _ => rfl) rfl (by simp)]
  exact rests_held _

theorem bounded (h : Reads pieces row) (min : UInt64) (max : Option UInt64) :
    Reads ("(" :: pieces ++ [")", Expr.boundsText min max])
      [some (.repetition min max row.toExpr)] := by
  intro before outer
  -- after the parenthesis the row is kept as it is, for there may be bounds behind it
  have hclosed : feed ⟨before, outer, .ready⟩ ("(" :: pieces ++ [")"]) = ⟨before, outer, .closed row⟩ :=
    h.feed_bracketed "(" ")" ')' (fun _ _ => rfl) rfl (by simp) before outer
  have hpieces : "(" :: pieces ++ [")", Expr.boundsText min max]
      = ("(" :: pieces ++ [")"]) ++ [Expr.boundsText min max] := by simp
  have hopen : step ⟨before, outer, .closed row⟩ '\x7b'
      = ⟨before, outer, .within (.lower row) []⟩ := rfl
  have hlower : run ⟨before, outer, .within (.lower row) []⟩ (Nat.toDigits 10 min.toNat ++ [','])
      = ⟨before, outer, .within (.upper row (Nat.toDigits 10 min.toNat)) []⟩ :=
    run_within (not_mem_toDigits rfl _) []
  have hafter : Token.after (upperDigits max) (.upper row (Nat.toDigits 10 min.toNat))
      = .held (.repetition min max row.toExpr) := by
    rw [Token.after, bound_toDigits, bound_upperDigits]
  have hupper : run ⟨before, outer, .within (.upper row (Nat.toDigits 10 min.toNat)) []⟩
      (upperDigits max ++ ['\x7d']) = ⟨before, outer, .held (.repetition min max row.toExpr)⟩ := by
    rw [← hafter]
    exact run_within (not_mem_upperDigits rfl max) []
  rw [hpieces, feed_append, hclosed, feed_cons, toList_boundsText, run_cons, hopen, run_append,
    hlower, hupper]
  exact rests_held _

end Reads

theorem reads_nonTerminal {name : String} (h : isIdentifier name) :
    Reads [name] [some (.nonTerminal name)] := by
  intro before outer
  obtain ⟨c, rest, rfl, hc, hrest⟩ := exists_of_isIdentifier h
  have hstep : step ⟨before, outer, .ready⟩ c = ⟨before, outer, .word [c]⟩ := if_pos hc
  rw [feed_cons, String.toList_ofList, run_cons, hstep, run_word hrest]
  exact rests_word (c :: rest)

theorem reads_characterSet {name : String} (h : isIdentifier name) :
    Reads ["[:", name, ":]"] [some (.characterSet name)] := by
  intro before outer
  have hopen : run ⟨before, outer, .ready⟩ "[:".toList = ⟨[], before :: outer, .within .set []⟩ := rfl
  have hname : run ⟨[], before :: outer, .within .set []⟩ (name.toList ++ [':'])
      = ⟨[], before :: outer, .named name.toList⟩ :=
    run_within (not_mem_identifier h rfl) []
  have hclose : run ⟨[], before :: outer, .named name.toList⟩ [']']
      = ⟨before, outer, .held (.characterSet (String.ofList name.toList))⟩ := rfl
  have hpieces : name.toList ++ ":]".toList = (name.toList ++ [':']) ++ [']'] := by simp
  rw [feed_cons, hopen, feed_cons, feed_cons, ← run_append, hpieces, run_append, hname, hclose,
    String.ofList_toList]
  exact rests_held _

theorem reads_quote {text segment : List Char} (h : segment ∈ Literal.segments text) :
    Reads [Literal.quote segment] [some (.literal (String.ofList segment))] := by
  intro before outer
  have hmark : step ⟨before, outer, .ready⟩ (Literal.mark segment)
      = ⟨before, outer, .within (.quoted (Literal.mark segment)) []⟩ := by
    rcases Literal.mark_eq segment with hm | hm <;> rw [hm] <;> rfl
  have hcontent : run ⟨before, outer, .within (.quoted (Literal.mark segment)) []⟩
      (segment ++ [Literal.mark segment])
      = ⟨before, outer, .held (.literal (String.ofList segment))⟩ :=
    run_within (Literal.mark_not_mem h) []
  rw [feed_cons, Literal.toList_quote, run_cons, hmark, hcontent]
  exact rests_held _

section Lists

variable {α : Type} {xs : List α} {pieces : α → List String} {row : α → Row}

theorem reads_flatten (hne : xs ≠ []) (h : ∀ x ∈ xs, Reads (pieces x) (row x)) :
    Reads ([" "].intercalate (xs.map pieces)) (xs.map row).flatten := by
  induction xs, hne using List.recNeNil with
  | singleton x => simpa using h
  | cons x rest hrest ih =>
    rw [List.forall_mem_cons] at h
    rw [List.map_cons, List.intercalate_cons_of_ne_nil (by simp [hrest]), List.append_assoc]
    exact h.1.blank (ih h.2)

theorem reads_bars (hne : xs ≠ []) (h : ∀ x ∈ xs, Reads (pieces x) (row x)) :
    Reads ([" | "].intercalate (xs.map pieces)) (Row.bars (xs.map row)) := by
  induction xs, hne using List.recNeNil with
  | singleton x => simpa [Row.bars_singleton] using h
  | cons x rest hrest ih =>
    rw [List.forall_mem_cons] at h
    rw [List.map_cons, List.intercalate_cons_of_ne_nil (by simp [hrest]), List.append_assoc,
      List.map_cons, Row.bars_cons _ (by simp [hrest])]
    exact h.1.bar (ih h.2)

end Lists

end Scanner

namespace Expr

theorem map_some_map {α β : Type} (f : α → β) (xs : List α) :
    (xs.map f).map some = (xs.map fun x => [some (f x)]).flatten := by
  rw [List.map_map, List.map_eq_flatMap, List.flatMap_def]
  rfl

theorem reads_pieces {e : Expr} (h : e.wellFormed) : Scanner.Reads e.pieces e.layout := by
  induction e with
  | epsilon => exact Scanner.reads_epsilon
  | literal text =>
    rw [pieces, Literal.pieces, ← intercalate_map_singleton, layout, map_some_map]
    exact Scanner.reads_flatten (Literal.segments_ne_nil text.toList) fun _ => Scanner.reads_quote
  | characterSet name => exact Scanner.reads_characterSet h
  | nonTerminal name => exact Scanner.reads_nonTerminal h
  | sequence parts ih =>
    rw [wellFormed_sequence] at h
    cases parts with
    | nil => exact Scanner.reads_nil
    | cons e rest =>
      rw [pieces, partPieces_eq_map, layout_sequence_cons]
      refine Scanner.reads_flatten (by simp) fun f hf => ?_
      have hreads := ih f hf (h f hf)
      unfold inSequence partRow
      split
      · next hp => exact hreads.parens (none_mem_layout hp)
      · exact hreads
  | alternatives branches ih =>
    rw [wellFormed_alternatives] at h
    rw [pieces, branchPieces_eq_map, layout_alternatives]
    exact Scanner.reads_bars h.1 fun f hf => ih f hf (h.2 f hf)
  | optional body ih => exact (ih ((wellFormed_optional body).mp h)).brackets
  | repetition min max body ih =>
    have hbody := ih ((wellFormed_repetition min max body).mp h)
    rw [pieces, layout]
    split
    · next hall =>
      obtain ⟨rfl, rfl⟩ := hall
      exact hbody.braces
    · exact hbody.bounded min max

/-- Reading a written body back gives what is in its row. -/
theorem ofText_text {e : Expr} (h : e.wellFormed) : ofText e.text = e.layout.toExpr := by
  have hrests := reads_pieces h [] []
  rw [ofText, text, Scanner.start, ← Scanner.feed_eq_run, hrests.finish_eq, List.nil_append]

end Expr

end Ebnf
