import Ebnf.Proofs.Arguments
import Ebnf.Proofs.Options
import Ebnf.Proofs.Trace
import Ebnf.Proofs.Writing
import Mathlib.Algebra.GroupWithZero.Nat
/-! What a run of the program leaves behind. Either everything goes through, and the grammar
is told of and perhaps a warning given, or the error of the step that fails is all there is. -/

namespace Ebnf

theorem Table.Kept.keys_eq {t : Table} {g : Grammar} (h : t.Kept g) :
    g.productions.keys = g.toList.map Production.name := by
  rw [InsertionMap.keys, Grammar.toList, InsertionMap.values, List.map_map]
  exact List.map_congr_left h.keyed

namespace CommandLine

/-- The warning about unused productions, if there is one. -/
def warning (o : Options) (t : Table) : String :=
  if o.skipUnused ∨ t.idle = [] then ""
  else Log.Entry.text ⟨.warn, "Unused productions: " ++ ", ".intercalate (t.idle.map Production.name)⟩ ++ "\n"

/-- How the productions are arranged in the end. -/
def arrangement (o : Options) : ProductionMap → ProductionMap := if o.sorted then InsertionMap.sortKeys else id

/-- A run that goes through: the document and its vocabularies were read, all their
productions are in the grammar, and each of them is printed once if any are. -/
inductive Succeeds (storage : Storage) (path : String) (o : Options) : Outcome → Prop
  | intro {spec : GrammarSpec} {vs : List VocabularySpec} {t : Table} {g : Grammar} {rules : List Production}
      (hload : Document.load storage path = .ok spec)
      (hread : Table.Read storage (Path.parent path) spec.vocabularies vs)
      (hholds : t.Holds spec.language spec.caseSensitive (spec.listedWith vs))
      (hresolved : (t.resolve (arrangement o) (resolutionOptions o)).value = .ok g)
      (hrules : rules.Perm t.toList)
      (hdefined : o.sorted = false → rules = t.toList)
      (hsorted : o.sorted → (rules.map Production.name).Pairwise (· < ·)) :
      Succeeds storage path o
        { exit := 0
          stdout := "Grammar\x7b" ++ spec.language ++ "\x7d: " ++
            toString (spec.productions.length + (vs.map fun v => v.productions.length).sum) ++ " productions\n" ++
            if o.print then String.join (rules.map Production.text) else ""
          stderr := warning o t }

/-- A run that fails: the document cannot be loaded or the table not be resolved. -/
inductive Fails (storage : Storage) (path : String) (o : Options) : Outcome → Prop
  | load {e : GrammarError} (h : (Table.load storage path).value = .error e) :
      Fails storage path o ⟨1, "", e.message ++ "\n"⟩
  | resolution {t : Table} {e : GrammarError} (hload : (Table.load storage path).value = .ok t)
      (h : (t.resolve (arrangement o) (resolutionOptions o)).value = .error e) :
      Fails storage path o ⟨1, "", e.message ++ "\n"⟩

section Run

variable {storage : Storage} {path : String} {o : Options}

theorem exists_of_load_eq_ok {t : Table} (h : (Table.load storage path).value = .ok t) :
    ∃ (spec : GrammarSpec) (vs : List VocabularySpec), Document.load storage path = .ok spec ∧
      Table.Read storage (Path.parent path) spec.vocabularies vs ∧
      t.Holds spec.language spec.caseSensitive (spec.listedWith vs) := by
  unfold Table.load at h
  split at h
  · cases h
  · next spec hspec =>
    obtain ⟨vs, hread, hholds⟩ := Table.holds_of_value_eq_ok h
    exact ⟨spec, vs, hspec, hread, hholds⟩

theorem length_listedWith (spec : GrammarSpec) (vs : List VocabularySpec) : (spec.listedWith vs).length =
    spec.productions.length + (vs.map fun v => v.productions.length).sum := by
  simp [GrammarSpec.listedWith, listed, List.length_flatMap]

theorem mem_resolutionOptions : .skipUnused ∈ resolutionOptions o ↔ o.skipUnused := by
  cases hr : o.rootless <;> cases hs : o.skipUnused <;> simp [resolutionOptions, hr, hs]

theorem filter_warn_eq_nil {es : List Log.Entry} (h : ∀ e ∈ es, e.level ≠ .warn) :
    es.filter (·.level = .warn) = [] := List.filter_eq_nil_iff.2 fun e he => by simpa using h e he

theorem echo_pushAll (es : List Log.Entry) :
    echo (Log.empty.pushAll es) = String.join ((es.filter (·.level = .warn)).map (·.text ++ "\n")) := by
  rw [echo, Log.echoed_pushAll]
  rfl

theorem resolve_of_load_error {e : GrammarError} (h : (Table.load storage path).value = .error e) :
    resolve storage path o = ⟨.error e, (Table.load storage path).entries⟩ := by
  rw [resolve]
  simp only [bind, h]
  exact congrArg (Logged.mk _) (List.append_nil _)

theorem resolve_of_load_ok {t : Table} (h : (Table.load storage path).value = .ok t) :
    resolve storage path o = ⟨(t.resolve (arrangement o) (resolutionOptions o)).value,
      (Table.load storage path).entries ++ (t.resolve (arrangement o) (resolutionOptions o)).entries⟩ := by
  rw [resolve]
  simp only [bind, h]
  rfl

/-- The outcome of a run, from what comes of the resolution. -/
def outcome (o : Options) (result : Logged (Except GrammarError Grammar)) : Outcome :=
  match result.value with
  | .ok g => ⟨0, report o g, echo (Log.empty.pushAll result.entries)⟩
  | .error e => ⟨1, "", echo (Log.empty.pushAll result.entries) ++ e.message ++ "\n"⟩

theorem run_eq {args : List String} (hparse : parse args .none = some o) (hpath : o.path = some path) :
    run storage args = some (outcome o (resolve storage path o)) := by
  rw [run, hparse]
  simp only [bind, Option.bind, hpath, outcome]
  cases (resolve storage path o).value <;> rfl

theorem rearranges_arrangement (o : Options) : Rearranges (arrangement o) := by
  rw [arrangement]
  split
  · exact rearranges_sortKeys
  · exact rearranges_id

/-- Without sorting, the productions stay in the order of their definition. -/
theorem values_arrangement (t : Table) (h : o.sorted = false) :
    (arrangement o t.productionMap).values = t.toList := by
  rw [arrangement, h]
  exact t.values_productionMap

theorem keys_arrangement (t : Table) (h : o.sorted) :
    (arrangement o t.productionMap).keys.Pairwise (· < ·) := by
  rw [arrangement, if_pos h]
  exact InsertionMap.keys_sortKeys_pairwise _

theorem outcome_of_ok {result : Logged (Except GrammarError Grammar)} {g : Grammar} (h : result.value = .ok g) :
    outcome o result = ⟨0, report o g, echo (Log.empty.pushAll result.entries)⟩ := by
  rw [outcome, h]

theorem outcome_of_unwarned {result : Logged (Except GrammarError Grammar)} {e : GrammarError}
    (h : result.value = .error e) (hwarn : ∀ e ∈ result.entries, e.level ≠ .warn) :
    outcome o result = ⟨1, "", e.message ++ "\n"⟩ := by
  rw [outcome, h, echo_pushAll, filter_warn_eq_nil hwarn]
  simp

/-- Nothing is warned of but unused productions. -/
theorem echo_of_complete {t : Table} (hload : (Table.load storage path).value = .ok t)
    (h : t.requests (resolutionOptions o) = []) :
    echo (Log.empty.pushAll (resolve storage path o).entries) = warning o t := by
  have hfilter := filter_warn_eq_nil (Table.unwarned_load storage path)
  rw [echo_pushAll, resolve_of_load_ok hload, List.filter_append, hfilter, Table.entries_of_complete _ h,
    List.nil_append, warning, Table.idleNote]
  simp only [mem_resolutionOptions]
  by_cases hidle : t.idle = []
  · simp [hidle]
  · cases hskip : o.skipUnused <;> simp [hidle]

/-- What is printed of a grammar that holds what a table holds. -/
theorem report_of_kept {t : Table} {g : Grammar} (h : t.Kept g) : report o g =
    "Grammar\x7b" ++ t.language ++ "\x7d: " ++ toString t.toList.length ++ " productions\n" ++
      if o.print then String.join (g.toList.map Production.text) else "" := by
  have hsize : g.size = t.toList.length := by
    rw [h.size, Table.size, NameIndex.size, Table.toList, NameIndex.values, List.length_map]
  have hwrite : (g.write.rendering none).1 = String.join (g.toList.map Production.text) := by
    rw [Grammar.write, Grammar.accept, rendering_forM_write]
  have hcolon : "\x7d" ++ ": " = "\x7d: " := by decide
  rw [report, hsize, hwrite, Grammar.text, h.language, ← hcolon]
  simp only [String.append_assoc]

theorem fails_of_load_error {e : GrammarError} (hload : (Table.load storage path).value = .error e) :
    Fails storage path o (outcome o (resolve storage path o)) := by
  rw [resolve_of_load_error hload, outcome_of_unwarned rfl (Table.unwarned_load storage path)]
  exact .load hload

theorem fails_of_resolve_error {t : Table} {e : GrammarError} (hload : (Table.load storage path).value = .ok t)
    (hvalue : (t.resolve (arrangement o) (resolutionOptions o)).value = .error e) :
    Fails storage path o (outcome o (resolve storage path o)) := by
  have hentries : (t.resolve (arrangement o) (resolutionOptions o)).entries = [⟨.error, e.message⟩] := by
    obtain ⟨hreq, rfl⟩ := Table.eq_of_error (arrangement o) hvalue
    rw [Table.resolve_of_missing (arrangement o) hreq]
    rfl
  have hwarn : ∀ entry ∈ (resolve storage path o).entries, entry.level ≠ .warn := by
    intro entry hentry
    rw [resolve_of_load_ok hload, hentries] at hentry
    rcases List.mem_append.1 hentry with hentry | hentry
    · exact Table.unwarned_load storage path entry hentry
    · simp [List.mem_singleton.1 hentry]
  have hresult : (resolve storage path o).value = .error e := by rw [resolve_of_load_ok hload, hvalue]
  rw [outcome_of_unwarned hresult hwarn]
  exact .resolution hload hvalue

theorem succeeds_of_resolve_ok {t : Table} {g : Grammar} (hload : (Table.load storage path).value = .ok t)
    (hvalue : (t.resolve (arrangement o) (resolutionOptions o)).value = .ok g) :
    Succeeds storage path o (outcome o (resolve storage path o)) := by
  obtain ⟨spec, vs, hspec, hread, hholds⟩ := exists_of_load_eq_ok hload
  have hkept : t.Kept g := by
    rw [Table.eq_of_ok (arrangement o) hvalue]
    exact t.kept_of_rearranges (rearranges_arrangement o)
  have hresult : (resolve storage path o).value = .ok g := by rw [resolve_of_load_ok hload, hvalue]
  have hecho := echo_of_complete hload (Table.requests_of_ok _ hvalue)
  rw [outcome_of_ok hresult, hecho, report_of_kept hkept, hholds.language, hholds.toList, length_listedWith]
  refine .intro hspec hread hholds hvalue hkept.productions (fun hno => ?_) fun hsorted => ?_
  · rw [Table.eq_of_ok (arrangement o) hvalue]
    exact values_arrangement t hno
  · rw [← hkept.keys_eq, Table.eq_of_ok (arrangement o) hvalue]
    exact keys_arrangement t hsorted

theorem succeeds_or_fails (storage : Storage) (path : String) (o : Options) :
    Succeeds storage path o (outcome o (resolve storage path o)) ∨
      Fails storage path o (outcome o (resolve storage path o)) := by
  cases hload : (Table.load storage path).value with
  | error e => exact .inr (fails_of_load_error hload)
  | ok t =>
    cases hvalue : (t.resolve (arrangement o) (resolutionOptions o)).value with
    | error e => exact .inr (fails_of_resolve_error hload hvalue)
    | ok g => exact .inl (succeeds_of_resolve_ok hload hvalue)

theorem succeeds_exit {out : Outcome} (h : Succeeds storage path o out) : out.exit = 0 := by
  cases h
  rfl

theorem fails_exit {out : Outcome} (h : Fails storage path o out) : out.exit = 1 := by
  cases h <;> rfl

end Run

/-- Arguments are accepted if they hold one path and some of the flags. A run on them does
what they say, and goes through or fails, and never both. -/
theorem run_succeeds_or_fails (storage : Storage) (args : List String) :
    (∀ path, (∃ o, parse args .none = some o ∧ o.path = some path) ↔ Acceptable args path) ∧
    ∀ {o : Options} {path : String}, parse args .none = some o → o.path = some path →
      Says args o path ∧ ∃ out, run storage args = some out ∧
        Xor (Succeeds storage path o out) (Fails storage path o out) := by
  refine ⟨fun _ => acceptable_iff, fun {o path} hparse hpath => ?_⟩
  refine ⟨says_of_parse hparse hpath, _, run_eq hparse hpath, ?_⟩
  rcases succeeds_or_fails storage path o with h | h
  · refine .inl ⟨h, fun hfails => ?_⟩
    have hexit := (succeeds_exit h).symm.trans (fails_exit hfails)
    omega
  · refine .inr ⟨h, fun hsucceeds => ?_⟩
    have hexit := (succeeds_exit hsucceeds).symm.trans (fails_exit h)
    omega

/-- A grammar with one production, and its vocabulary with another that nothing mentions. -/
def unusedImport : Storage := fun path =>
  if path = "g.json" then
    .ok ("\x7b\"language\":\"g\",\"vocabularies\":[\"v.json\"]," ++
      "\"productions\":[\x7b\"name\":\"g\",\"body\":\"Epsilon\"\x7d]\x7d")
  else if path = "v.json" then
    .ok ("\x7b\"language\":\"v\",\"productions\":[\x7b\"name\":\"a\",\"description\":\"spare\"," ++
      "\"body\":\x7b\"NonTerminal\":\"g\"\x7d\x7d]\x7d")
  else .error .notFound

/-- What is printed of that grammar. -/
def printed : Outcome :=
  ⟨0, "Grammar\x7bg\x7d: 2 productions\ng ::= () ;\n(* spare *)\na ::= g ;\n", "[Warn]  Unused productions: a\n"⟩

/-- What comes of a grammar that is not there. -/
def notFound : Outcome := ⟨1, "", "Failed to read 'lost.json': No such file or directory (os error 2)\n"⟩

theorem run_unusedImport :
    (Acceptable ["--print", "g.json"] "g.json" ∧ run unusedImport ["--print", "g.json"] = some printed ∧
      Succeeds unusedImport "g.json" ⟨some "g.json", false, false, false, true⟩ printed) ∧
    Acceptable ["--sorted", "lost.json", "--rootless"] "lost.json" ∧
      run unusedImport ["--sorted", "lost.json", "--rootless"] = some notFound ∧
      Fails unusedImport "lost.json" ⟨some "lost.json", true, false, true, false⟩ notFound := by
  have hprint : parse ["--print", "g.json"] .none = some ⟨some "g.json", false, false, false, true⟩ := by decide
  have hsorted : parse ["--sorted", "lost.json", "--rootless"] .none =
      some ⟨some "lost.json", true, false, true, false⟩ := by decide
  have hprinted : run unusedImport ["--print", "g.json"] = some printed := by decide +kernel
  have hlost : run unusedImport ["--sorted", "lost.json", "--rootless"] = some notFound := by decide +kernel
  obtain ⟨haccept, hrun⟩ := run_succeeds_or_fails unusedImport ["--print", "g.json"]
  obtain ⟨haccept', hrun'⟩ := run_succeeds_or_fails unusedImport ["--sorted", "lost.json", "--rootless"]
  refine ⟨⟨(haccept _).1 ⟨_, hprint, rfl⟩, hprinted, ?_⟩, (haccept' _).1 ⟨_, hsorted, rfl⟩, hlost, ?_⟩
  · obtain ⟨-, out, hout, h⟩ := hrun hprint rfl
    obtain rfl := Option.some.inj (hout.symm.trans hprinted)
    rcases h with h | h
    · exact h.1
    · exact absurd (fails_exit h.1) (by decide)
  · obtain ⟨-, out, hout, h⟩ := hrun' hsorted rfl
    obtain rfl := Option.some.inj (hout.symm.trans hlost)
    rcases h with h | h
    · exact absurd (succeeds_exit h.1) (by decide)
    · exact h.1

end CommandLine

end Ebnf
