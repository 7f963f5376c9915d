import Mathlib.Data.List.TakeWhile
import Ebnf.Proofs.Reading
import Ebnf.Proofs.Writing
/-! Rules and the comments in front of them. Names and bodies can be told from the text as
long as the comments can. Where the description in a comment has the end of a comment in it,
then rules and then the beginning of another comment, the text is also that of these rules,
each of them a production of its own. -/

namespace Ebnf

section Marks

variable {α : Type} {a : α} {xs ys rest rest' : List α}

/-- A piece without the mark ends in front of the mark. -/
theorem exists_append_of_not_mem (hx : a ∉ xs) (h : xs ++ rest = ys ++ a :: rest') :
    ∃ zs, ys = xs ++ zs ∧ rest = zs ++ a :: rest' := by
  rcases List.append_eq_append_iff.1 h with ⟨zs, hys, hrest⟩ | ⟨zs, hxs, hrest⟩
  · exact ⟨zs, hys, hrest⟩
  · cases zs with
    | nil => exact ⟨[], by simpa using hxs.symm, by simpa using hrest.symm⟩
    | cons b zs =>
      have hb : a = b := (List.cons.inj hrest).1
      exact absurd (by rw [hxs, hb]; simp) hx

theorem append_cons_inj (hx : a ∉ xs) (hy : a ∉ ys) (h : xs ++ a :: rest = ys ++ a :: rest') :
    xs = ys ∧ rest = rest' := by
  obtain ⟨zs, rfl, hrest⟩ := exists_append_of_not_mem hx h
  cases zs with
  | nil => exact ⟨(List.append_nil xs).symm, (List.cons.inj hrest).2⟩
  | cons b zs =>
    have hb : a = b := (List.cons.inj hrest).1
    exact absurd (by simp [hb]) hy

end Marks

namespace Expr

/-- A body that has no other bodies in it and is no literal. -/
def isAtom : Expr → Bool
  | epsilon => true
  | characterSet name | nonTerminal name => isIdentifier name
  | _ => false

variable {e f : Expr}

theorem wellFormed_of_isAtom (h : e.isAtom) : e.wellFormed := by
  cases e with
  | epsilon => rfl
  | characterSet | nonTerminal => exact h
  | _ => cases h

theorem layout_of_isAtom (h : e.isAtom) : e.layout = [some e] := by
  cases e with
  | epsilon | characterSet | nonTerminal => rfl
  | _ => cases h

theorem toExpr_item (e : Expr) : Row.toExpr [some e] = alternatives [sequence [e]] := by
  have hbranches : Row.branches [some e] = [[e]] := Row.branches_map_some [e]
  rw [Row.toExpr, hbranches]
  rfl

/-- An atom can be told from its text, because the text reads back. -/
theorem eq_of_text_eq (he : e.isAtom) (hf : f.isAtom) (h : e.text = f.text) : e = f := by
  have hread : ofText e.text = ofText f.text := by rw [h]
  rw [ofText_text (wellFormed_of_isAtom he), ofText_text (wellFormed_of_isAtom hf),
    layout_of_isAtom he, layout_of_isAtom hf, toExpr_item, toExpr_item] at hread
  simpa using hread

theorem not_mem_text_of_isAtom (he : e.isAtom) {c : Char} (hc : inName c = false)
    (hbrackets : c ∉ ['(', ')', '[', ':', ']']) : c ∉ e.text.toList := by
  cases e with
  | epsilon =>
    have hsub : (epsilon.text).toList ⊆ ['(', ')', '[', ':', ']'] := by decide
    exact fun h => hbrackets (hsub h)
  | characterSet name =>
    have hname : c ∉ name.toList := not_mem_identifier he hc
    simp only [List.mem_cons, not_or] at hbrackets
    simp [text, pieces, hname, hbrackets]
  | nonTerminal name =>
    have hname : c ∉ name.toList := not_mem_identifier he hc
    simpa [text, pieces, String.toList_join] using hname
  | _ => cases he

end Expr

/-- What a comment begins with. -/
def opening : List Char := ['(', '*', ' ']

/-- What a comment ends with. -/
def closing : List Char := [' ', '*', ')', '\n']

namespace Production

/-- A production whose name and body can be told from its rule. -/
def plain (p : Production) : Bool := isIdentifier p.name && p.body.isAtom

/-- A production without its description. -/
def bare (p : Production) : Production := { p with description := none }

theorem plain_bare (p : Production) : p.bare.plain = p.plain := rfl

/-- What is written in front of a rule. -/
def comment : Option String → List Char
  | none => []
  | some d => opening ++ d.toList ++ closing

def rule (p : Production) : List Char :=
  p.name.toList ++ ' ' :: [':', ':', '=', ' '] ++ p.body.text.toList ++ ' ' :: [';', '\n']

variable {p q : Production} {rest rest' : List Char}

theorem toList_text (p : Production) : p.text.toList = comment p.description ++ p.rule := by
  cases h : p.description with
  | none => simp [text, pieces, h, descriptionPieces, comment, rule, Expr.text, String.toList_join]
  | some d =>
    simp [text, pieces, h, descriptionPieces, comment, rule, Expr.text, String.toList_join, opening,
      closing]

/-- A rule ends with the blank behind its body, and the name and the body have none. -/
theorem rule_append_inj (hp : p.plain) (hq : q.plain) (h : p.rule ++ rest = q.rule ++ rest') :
    p.name = q.name ∧ p.body = q.body ∧ rest = rest' := by
  rw [plain, Bool.and_eq_true] at hp hq
  have hblank : inName ' ' = false := by decide
  simp only [rule, List.append_assoc, List.cons_append] at h
  obtain ⟨hname, h⟩ := append_cons_inj (not_mem_identifier hp.1 hblank) (not_mem_identifier hq.1 hblank) h
  simp only [List.cons.injEq, true_and] at h
  obtain ⟨hbody, h⟩ := append_cons_inj (Expr.not_mem_text_of_isAtom hp.2 hblank (by decide))
    (Expr.not_mem_text_of_isAtom hq.2 hblank (by decide)) h
  simp only [List.nil_append, List.cons.injEq, true_and] at h
  exact ⟨String.toList_inj.1 hname, Expr.eq_of_text_eq hp.2 hq.2 (String.toList_inj.1 hbody), h⟩

theorem star_not_mem_rule (hp : p.plain) : '*' ∉ p.rule := by
  rw [plain, Bool.and_eq_true] at hp
  have hname := not_mem_identifier hp.1 (show inName '*' = false by decide)
  have hbody := Expr.not_mem_text_of_isAtom hp.2 (show inName '*' = false by decide) (by decide)
  simp [rule, hname, hbody]

theorem getLast?_rule (p : Production) : p.rule.getLast? = some '\n' := by
  rw [rule, List.getLast?_append_cons]
  rfl

/-- The text of some productions, as characters. -/
def chars (ps : List Production) : List Char := ps.flatMap (·.text.toList)

theorem toList_join_text (ps : List Production) : (String.join (ps.map text)).toList = chars ps := by
  rw [String.toList_join, List.flatMap_map, chars]

theorem chars_cons (p : Production) (ps : List Production) :
    chars (p :: ps) = comment p.description ++ p.rule ++ chars ps := by
  rw [chars, List.flatMap_cons, toList_text, chars]

/-- Two ends of a comment do not lap over each other. -/
theorem exists_of_closing_append {y : List Char} (hy : y ≠ []) (h : closing ++ rest = y ++ closing ++ rest') :
    ∃ z, y = closing ++ z := by
  match y with
  | [] => exact absurd rfl hy
  | [_] | [_, _] | [_, _, _] => simp [closing] at h
  | a :: b :: c :: d :: z =>
    simp only [closing, List.cons_append, List.nil_append, List.cons.injEq] at h
    obtain ⟨rfl, rfl, rfl, rfl, -⟩ := h
    exact ⟨z, rfl⟩

/-- A rule has no star, so a comment that ends behind its beginning ends behind all of it. -/
theorem exists_of_rule_append {cs y : List Char} (hp : p.plain) (h : p.rule ++ cs = y ++ closing ++ rest) :
    ∃ z, y = p.rule ++ z ∧ cs = z ++ closing ++ rest := by
  have hstar : p.rule ++ cs = (y ++ [' ']) ++ '*' :: ([')', '\n'] ++ rest) := by
    simpa [closing] using h
  obtain ⟨zs, hy, hcs⟩ := exists_append_of_not_mem (star_not_mem_rule hp) hstar
  rcases List.eq_nil_or_concat zs with rfl | ⟨z, blank, rfl⟩
  · -- a rule does not end with a blank
    have hlast := congrArg List.getLast? hy
    rw [List.append_nil, getLast?_rule, List.getLast?_append_cons] at hlast
    cases hlast
  · rw [List.concat_eq_append] at hy hcs
    rw [← List.append_assoc] at hy
    obtain ⟨rfl, hblank⟩ := List.append_inj' hy rfl
    obtain rfl := (List.cons.inj hblank).1
    exact ⟨z, rfl, by simpa [closing] using hcs⟩

/-- The blank at the end of a comment may be that at its beginning. -/
theorem exists_of_opening_append {cs y : List Char} (h : opening ++ cs = y ++ closing ++ rest) :
    ∃ z, y ++ [' '] = opening ++ z := by
  match y with
  | [] | [_] => simp [opening, closing] at h
  | [a, b] =>
    simp only [opening, closing, List.cons_append, List.nil_append, List.cons.injEq] at h
    obtain ⟨rfl, rfl, -⟩ := h
    exact ⟨[], rfl⟩
  | a :: b :: c :: z =>
    simp only [opening, List.cons_append, List.nil_append, List.cons.injEq] at h
    obtain ⟨rfl, rfl, rfl, -⟩ := h
    exact ⟨z ++ [' '], rfl⟩

/-- Where a comment ends within the text of some productions, there is one among them, and
the rules in front of it come first. -/
theorem exists_of_closing {ps : List Production} (hps : ∀ p ∈ ps, p.plain) {y : List Char}
    (h : chars ps = y ++ closing ++ rest) :
    ∃ z, y ++ [' '] = chars (ps.takeWhile (·.description = none)) ++ opening ++ z := by
  induction ps generalizing y with
  | nil => simp [chars, closing] at h
  | cons p ps ih =>
    obtain ⟨hp, hps⟩ := List.forall_mem_cons.1 hps
    rw [chars_cons] at h
    cases hd : p.description with
    | none =>
      rw [hd, comment, List.nil_append] at h
      obtain ⟨zs, rfl, hcs⟩ := exists_of_rule_append hp h
      obtain ⟨z, hz⟩ := ih hps hcs
      refine ⟨z, ?_⟩
      rw [List.takeWhile_cons_of_pos (by simp [hd]), chars_cons, hd, comment, List.nil_append,
        List.append_assoc, hz]
      simp only [List.append_assoc]
    | some d =>
      rw [List.takeWhile_cons_of_neg (by simp [hd])]
      simp only [hd, comment, List.append_assoc] at h
      obtain ⟨z, hz⟩ := exists_of_opening_append (y := y) (by simpa only [List.append_assoc] using h)
      exact ⟨z, hz⟩

/-- A description that closes its comment, goes on with rules and opens another comment. -/
def Forges (d : String) : Prop :=
  ∃ (before : String) (rules : List Production) (rest : String), rules ≠ [] ∧
    (∀ p ∈ rules, p.plain ∧ p.description = none) ∧
    d ++ " " = before ++ " *)\n" ++ String.join (rules.map text) ++ "(* " ++ rest

/-- If two comments in front of rules lead to the same text and one is longer, the longer
one forges. -/
theorem forges_of_comment_eq {d d' : String} {ps : List Production} (hp : p.plain) (hps : ∀ p ∈ ps, p.plain)
    (hlen : d.toList.length < d'.toList.length)
    (h : d.toList ++ (closing ++ (p.rule ++ chars ps)) = d'.toList ++ (closing ++ rest)) : Forges d' := by
  obtain ⟨y, hd', hy⟩ : ∃ y, d'.toList = d.toList ++ y ∧
      closing ++ (p.rule ++ chars ps) = y ++ closing ++ rest := by
    rcases List.append_eq_append_iff.1 h with ⟨y, hd', hy⟩ | ⟨y, hd, -⟩
    · exact ⟨y, hd', by rw [hy, List.append_assoc]⟩
    · rw [hd, List.length_append] at hlen
      omega
  have hne : y ≠ [] := by
    rintro rfl
    rw [hd', List.append_nil] at hlen
    omega
  obtain ⟨w, rfl⟩ := exists_of_closing_append hne hy
  simp only [List.append_assoc, List.append_cancel_left_eq] at hy
  -- what comes behind the shorter comment is the text of productions that start with a rule
  have hbare : chars (p.bare :: ps) = w ++ closing ++ rest := by
    rw [chars_cons, List.append_assoc, List.append_assoc]
    exact hy
  obtain ⟨z, hz⟩ := exists_of_closing (List.forall_mem_cons.2 ⟨p.plain_bare ▸ hp, hps⟩) hbare
  have htake : (p.bare :: ps).takeWhile (·.description = none) =
      p.bare :: ps.takeWhile (·.description = none) := rfl
  rw [htake] at hz
  refine ⟨d, p.bare :: ps.takeWhile (·.description = none), .ofList z, List.cons_ne_nil _ _, ?_, ?_⟩
  · refine List.forall_mem_cons.2 ⟨⟨hp, rfl⟩, fun q hq => ⟨hps q (List.takeWhile_subset _ hq), ?_⟩⟩
    simpa using List.mem_takeWhile_imp hq
  · apply String.toList_inj.1
    simp only [String.toList_append, toList_join_text, hd', String.toList_ofList, List.append_assoc]
    rw [show " ".toList = [' '] from rfl, hz]
    simp only [List.append_assoc]
    rfl

/-- What is written of a production. -/
def written (p : Production) : String × Option String × Expr := (p.name, p.description, p.body)

theorem comment_append_ne {d : String} (hp : p.plain) :
    comment none ++ p.rule ++ rest ≠ comment (some d) ++ q.rule ++ rest' := by
  intro h
  rw [plain, Bool.and_eq_true] at hp
  obtain ⟨c, name, hname, hc, -⟩ := exists_of_isIdentifier hp.1
  rw [rule, hname, String.toList_ofList] at h
  simp only [comment, opening, List.nil_append, List.cons_append, List.append_assoc, List.cons.injEq] at h
  rw [h.1] at hc
  exact absurd hc (by decide)

/-- Comments that do not forge can be told from the text that they begin. -/
theorem description_eq {ps qs : List Production} (hp : p.plain) (hq : q.plain)
    (hps : ∀ p ∈ ps, p.plain) (hqs : ∀ q ∈ qs, q.plain)
    (hdp : ∀ d ∈ p.description, ¬ Forges d) (hdq : ∀ d ∈ q.description, ¬ Forges d)
    (h : chars (p :: ps) = chars (q :: qs)) : p.description = q.description := by
  rw [chars_cons, chars_cons] at h
  cases hd : p.description with
  | none =>
    cases hd' : q.description with
    | none => rfl
    | some d' =>
      rw [hd, hd'] at h
      exact absurd h (comment_append_ne hp)
  | some d =>
    cases hd' : q.description with
    | none =>
      rw [hd, hd'] at h
      exact absurd h.symm (comment_append_ne hq)
    | some d' =>
      rw [hd, hd'] at h
      simp only [comment, List.append_assoc, List.append_cancel_left_eq] at h
      rcases Nat.lt_trichotomy d.toList.length d'.toList.length with hlt | heq | hgt
      · exact absurd (forges_of_comment_eq hp hps hlt h) (hdq d' hd')
      · rw [String.toList_inj.1 (List.append_inj_left h heq)]
      · exact absurd (forges_of_comment_eq hq hqs hgt h.symm) (hdp d hd)

theorem chars_cons_ne_nil (p : Production) (ps : List Production) : chars (p :: ps) ≠ [] := by
  simp [chars_cons, rule]

theorem map_written_eq {ps qs : List Production} (hps : ∀ p ∈ ps, p.plain ∧ ∀ d ∈ p.description, ¬ Forges d)
    (hqs : ∀ q ∈ qs, q.plain ∧ ∀ d ∈ q.description, ¬ Forges d) (h : chars ps = chars qs) :
    ps.map written = qs.map written := by
  induction ps generalizing qs with
  | nil =>
    cases qs with
    | nil => rfl
    | cons q qs => exact absurd h.symm (chars_cons_ne_nil q qs)
  | cons p ps ih =>
    cases qs with
    | nil => exact absurd h (chars_cons_ne_nil p ps)
    | cons q qs =>
      obtain ⟨⟨hp, hdp⟩, hps⟩ := List.forall_mem_cons.1 hps
      obtain ⟨⟨hq, hdq⟩, hqs⟩ := List.forall_mem_cons.1 hqs
      have hdescription := description_eq hp hq (fun p hp => (hps p hp).1) (fun q hq => (hqs q hq).1)
        hdp hdq h
      rw [chars_cons, chars_cons, hdescription, List.append_assoc, List.append_assoc,
        List.append_cancel_left_eq] at h
      obtain ⟨hname, hbody, hrest⟩ := rule_append_inj hp hq h
      rw [List.map_cons, List.map_cons, ih hps hqs hrest, written, written, hname, hdescription, hbody]

theorem chars_append (ps qs : List Production) : chars (ps ++ qs) = chars ps ++ chars qs :=
  List.flatMap_append

/-- A production with nothing in its body. -/
def void (name : String) (description : Option String) : Production := ⟨name, description, none, .epsilon⟩

theorem plain_void {name : String} (h : isIdentifier name) (description : Option String) :
    (void name description).plain := by
  rw [plain, Bool.and_eq_true]
  exact ⟨h, rfl⟩

theorem rule_void (name : String) (description : Option String) :
    (void name description).rule = name.toList ++ " ::= () ;\n".toList := by
  have hline : ' ' :: [':', ':', '=', ' '] ++ Expr.epsilon.text.toList ++ ' ' :: [';', '\n'] =
      " ::= () ;\n".toList := by decide
  rw [← hline, rule, void]
  simp only [List.append_assoc]

theorem chars_void (name d : String) (ps : List Production) : chars (void name (some d) :: ps) =
    opening ++ (d.toList ++ ' ' :: ['*', ')', '\n'] ++ (name.toList ++ " ::= () ;\n".toList ++ chars ps)) := by
  rw [chars_cons, rule_void]
  simp only [void, comment, closing, List.append_assoc]

theorem exists_identifier_ne (name : String) : ∃ other, isIdentifier other ∧ other ≠ name := by
  by_cases h : name = "a"
  · exact ⟨"b", by decide, by rw [h]; decide⟩
  · exact ⟨"a", by decide, Ne.symm h⟩

/-- What is read of a description that forges: its rules, and then a comment of its own
that goes on behind the rule `name`. -/
def unraveled (before : String) (r : Production) (rs : List Production) (rest name : String) :
    List Production :=
  { r with description := some before } ::
    (rs ++ [void "c" (some (rest ++ "*)\n" ++ (name ++ " ::= () ;\n" ++ "(* ")))])

theorem chars_unraveled {d before rest : String} {r : Production} {rs : List Production} (hr : r.description = none)
    (hd : d ++ " " = before ++ " *)\n" ++ String.join ((r :: rs).map text) ++ "(* " ++ rest) (name : String) :
    chars [void name (some d), void "c" (some "")] = chars (unraveled before r rs rest name) := by
  have hchars : d.toList ++ [' '] =
      before.toList ++ (closing ++ (r.rule ++ (chars rs ++ (opening ++ rest.toList)))) := by
    have h := congrArg String.toList hd
    simp only [String.toList_append, toList_join_text, chars_cons, hr, comment, List.nil_append,
      List.append_assoc] at h
    exact h
  calc
    chars [void name (some d), void "c" (some "")] =
        opening ++ ((d.toList ++ [' ']) ++ ['*', ')', '\n'] ++ (name.toList ++ " ::= () ;\n".toList ++
          chars [void "c" (some "")])) := by
      rw [chars_void]
      simp only [List.append_assoc, List.cons_append, List.nil_append]
    _ = opening ++ (before.toList ++ (closing ++ (r.rule ++ (chars rs ++ (opening ++ rest.toList)))) ++
          ['*', ')', '\n'] ++ (name.toList ++ " ::= () ;\n".toList ++ chars [void "c" (some "")])) := by
      rw [hchars]
    _ = chars (unraveled before r rs rest name) := by
      rw [unraveled, chars_cons { r with description := some before }, chars_append, chars_void, chars_void]
      simp only [comment, String.toList_append, List.append_assoc, List.append_cancel_left_eq]
      rfl

/-- A description that forges is written by some productions whose text other rules have as well. -/
theorem exists_of_forges {d : String} (h : Forges d) : ∃ ps qs : List Production,
    (∀ p ∈ ps ++ qs, p.plain) ∧ (∃ p ∈ ps, p.description = some d) ∧ chars ps = chars qs ∧
      ps.map (fun p => (p.name, p.body)) ≠ qs.map fun p => (p.name, p.body) := by
  obtain ⟨before, rules, rest, hne, hrules, hd⟩ := h
  obtain ⟨r, rs, rfl⟩ := List.exists_cons_of_ne_nil hne
  obtain ⟨⟨hr, hbare⟩, hrs⟩ := List.forall_mem_cons.1 hrules
  obtain ⟨name, hname, hother⟩ := exists_identifier_ne r.name
  refine ⟨[void name (some d), void "c" (some "")], unraveled before r rs rest name, ?_,
    ⟨_, List.mem_cons_self .., rfl⟩, chars_unraveled hbare hd name, ?_⟩
  · intro p hp
    simp only [unraveled, List.cons_append, List.nil_append, List.mem_cons, List.mem_append,
      List.not_mem_nil, or_false] at hp
    rcases hp with rfl | rfl | rfl | hp | rfl
    · exact plain_void hname _
    · exact plain_void (by decide) _
    · exact hr
    · exact (hrs p hp).1
    · exact plain_void (by decide) _
  · intro heq
    exact hother (congrArg Prod.fst (List.cons.inj heq).1)

theorem rendering_eq_iff {ps qs : List Production} :
    ((ps.forM write).rendering none).1 = ((qs.forM write).rendering none).1 ↔ chars ps = chars qs := by
  rw [rendering_forM_write, rendering_forM_write, ← String.toList_inj, toList_join_text, toList_join_text]

/-- Productions with the same text are written alike, one by one, as long as no description
forges. A description that does is written by some productions whose text other rules have
as well. -/
theorem text_determines_rules {ps qs : List Production} (hplain : ∀ p ∈ ps ++ qs, p.plain) :
    ((∀ p ∈ ps ++ qs, ∀ d ∈ p.description, ¬ Forges d) →
      ((ps.forM write).rendering none).1 = ((qs.forM write).rendering none).1 →
      ps.map written = qs.map written) ∧
    ∀ d, Forges d → ∃ ps qs : List Production, (∀ p ∈ ps ++ qs, p.plain) ∧
      (∃ p ∈ ps, p.description = some d) ∧
      ((ps.forM write).rendering none).1 = ((qs.forM write).rendering none).1 ∧
      ps.map (fun p => (p.name, p.body)) ≠ qs.map fun p => (p.name, p.body) := by
  refine ⟨fun hhonest htext => ?_, fun d hd => ?_⟩
  · rw [List.forall_mem_append] at hplain hhonest
    exact map_written_eq (fun p hp => ⟨hplain.1 p hp, hhonest.1 p hp⟩)
      (fun q hq => ⟨hplain.2 q hq, hhonest.2 q hq⟩) (rendering_eq_iff.1 htext)
  · obtain ⟨ps, qs, hplain, hmem, hchars, hne⟩ := exists_of_forges hd
    exact ⟨ps, qs, hplain, hmem, rendering_eq_iff.2 hchars, hne⟩

/-- Only a description with the end of a comment in it can forge. -/
theorem closing_of_forges {d : String} (h : Forges d) : closing <:+: d.toList ++ [' '] := by
  obtain ⟨before, rules, rest, -, -, hd⟩ := h
  have hchars := congrArg String.toList hd
  simp only [String.toList_append, List.append_assoc] at hchars
  rw [show " ".toList = [' '] from rfl] at hchars
  rw [hchars, ← List.append_assoc]
  exact List.infix_append _ _ _

/-- Descriptions that have delimiters, lines and what looks like a rule in them. -/
def delimitersInDescriptions : List Production :=
  [⟨"digits", some "one *) or (* more", none, .nonTerminal "digit"⟩,
    ⟨"digit", some "as in\ndigits ::= () ;\nand no others", none, .characterSet "Nd"⟩,
    ⟨"nothing", none, none, .epsilon⟩]

theorem not_forges_delimitersInDescriptions : ∀ p ∈ delimitersInDescriptions, ∀ d ∈ p.description, ¬ Forges d := by
  have hopen : ∀ p ∈ delimitersInDescriptions, ∀ d ∈ p.description, ¬ closing <:+: d.toList ++ [' '] := by decide
  intro p hp d hd h
  exact hopen p hp d hd (closing_of_forges h)

theorem text_determines_delimitersInDescriptions :
    (∀ p ∈ delimitersInDescriptions, p.plain ∧ ∀ d ∈ p.description, ¬ Forges d) ∧
    (∀ qs : List Production, (∀ q ∈ qs, q.plain ∧ ∀ d ∈ q.description, ¬ Forges d) →
      ((delimitersInDescriptions.forM write).rendering none).1 = ((qs.forM write).rendering none).1 →
      delimitersInDescriptions.map written = qs.map written) ∧ Forges "one *)\na ::= () ;\n(* two" := by
  have hplain : ∀ p ∈ delimitersInDescriptions, p.plain := by decide
  refine ⟨fun p hp => ⟨hplain p hp, not_forges_delimitersInDescriptions p hp⟩, fun qs hqs htext => ?_, ?_⟩
  · have hboth : ∀ p ∈ delimitersInDescriptions ++ qs, p.plain :=
      List.forall_mem_append.2 ⟨hplain, fun q hq => (hqs q hq).1⟩
    refine (text_determines_rules hboth).1 ?_ htext
    exact List.forall_mem_append.2 ⟨not_forges_delimitersInDescriptions, fun q hq => (hqs q hq).2⟩
  · exact ⟨"one", [⟨"a", none, none, .epsilon⟩], "two ", by decide, by decide, by decide⟩

/-- A description that forges, and the rules that its text is made of. -/
def ruleInDescription : List Production := [⟨"c", some "one *)\na ::= () ;\n(* two", none, .epsilon⟩]

def twoDescribedRules : List Production := [⟨"a", some "one", none, .epsilon⟩, ⟨"c", some "two", none, .epsilon⟩]

theorem same_text_ruleInDescription : (∀ p ∈ ruleInDescription ++ twoDescribedRules, p.plain) ∧
    (ruleInDescription.forM write).rendering none = (twoDescribedRules.forM write).rendering none ∧
    ((ruleInDescription.forM write).rendering none).1 = "(* one *)\na ::= () ;\n(* two *)\nc ::= () ;\n" ∧
    ruleInDescription.map (fun p => (p.name, p.body)) ≠ twoDescribedRules.map fun p => (p.name, p.body) := by
  decide

end Production

end Ebnf
