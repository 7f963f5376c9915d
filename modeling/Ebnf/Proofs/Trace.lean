import Ebnf.Proofs.Diagnostics
import Ebnf.Proofs.Documents
/-! What work on tables logs. A name that is taken and names that are missing are logged
as errors when they are returned, and nothing else is logged as an error. A vocabulary is
announced before its productions are taken over. -/

namespace Ebnf

namespace GrammarError

/-- What is logged of an error that is returned. -/
def trace (e : GrammarError) : List Log.Entry :=
  match e with
  | duplicateDefinition _ | missingProductions _ => [⟨.error, e.message⟩]
  | _ => []

/-- What is logged of an error that may have been returned. -/
def traceOf (e : Option GrammarError) : List Log.Entry := e.toList.flatMap trace

theorem traceOf_some (e : GrammarError) : traceOf (some e) = e.trace := List.append_nil _

/-- What adding a production logs of a name that is taken is what the error says. -/
theorem traceOf_duplicateDefinition (name : String) : traceOf (some (.duplicateDefinition name)) =
    [⟨.error, "Duplicate definition of '" ++ name ++ "' production"⟩] := rfl

/-- What a ledger logs of its report is what the error says. -/
theorem traceOf_missingProductions (r : MissingReport) :
    traceOf (some (.missingProductions r)) = [⟨.error, r.text⟩] := rfl

theorem level_of_mem_traceOf {e : Option GrammarError} {entry : Log.Entry} (h : entry ∈ traceOf e) :
    entry.level = .error := by
  obtain ⟨e, -, he⟩ := List.mem_flatMap.1 h
  cases e with
  | duplicateDefinition | missingProductions => rw [List.mem_singleton.1 he]
  | _ => cases he

end GrammarError

namespace Log

/-- The errors among some entries. -/
def errors (es : List Entry) : List Entry := es.filter (·.level = .error)

theorem errors_append (es es' : List Entry) : errors (es ++ es') = errors es ++ errors es' :=
  List.filter_append ..

theorem errors_traceOf (e : Option GrammarError) : errors (GrammarError.traceOf e) = GrammarError.traceOf e :=
  List.filter_eq_self.2 fun _ he => decide_eq_true (GrammarError.level_of_mem_traceOf he)

theorem echoed_push (log : Log) (e : Entry) :
    (log.push e).echoed = log.echoed ++ [e].filter (·.level = .warn) := by
  by_cases he : e.level = .warn <;> simp [push, he]

theorem echoed_pushAll (log : Log) (es : List Entry) :
    (log.pushAll es).echoed = log.echoed ++ es.filter (·.level = .warn) := by
  induction es generalizing log with
  | nil => exact (List.append_nil _).symm
  | cons e es ih =>
    rw [pushAll, List.foldl_cons, ← pushAll, ih, echoed_push, List.append_assoc, ← List.filter_append,
      List.singleton_append]

end Log

theorem infix_intercalate {α : Type} {sep x : List α} {xs : List (List α)} (h : x ∈ xs) :
    x <:+: sep.intercalate xs := by
  induction xs with
  | nil => cases h
  | cons y ys ih =>
    rcases ys with _ | ⟨z, zs⟩
    · obtain rfl := List.mem_singleton.1 h
      exact ⟨[], [], by simp [List.intercalate_singleton]⟩
    · rw [List.intercalate_cons_cons, List.append_assoc]
      rcases List.mem_cons.1 h with rfl | h
      · exact (List.prefix_append ..).isInfix
      · exact (ih h).trans ((List.suffix_append ..).trans (List.suffix_append ..)).isInfix

namespace MissingReport

variable {r : MissingReport} {m : Missing}

theorem within_text (h : m ∈ r.items) : m.text.toList <:+: r.text.toList := by
  have hmem : m.text.toList ∈ (r.items.map Missing.text).map String.toList :=
    List.mem_map_of_mem (List.mem_map_of_mem h)
  unfold text
  rw [String.toList_append, String.toList_join, List.flatMap]
  exact (List.infix_of_mem_flatten hmem).trans (List.suffix_append _ _).isInfix

/-- A report names every missing name and everyone who asked for it. -/
theorem within_message (h : m ∈ r.items) :
    m.name.toList <:+: (GrammarError.missingProductions r).message.toList ∧
      ∀ referrer ∈ m.referrers,
        referrer.text.toList <:+: (GrammarError.missingProductions r).message.toList := by
  have htext : m.text.toList = "\n\t'".toList ++ m.name.toList ++ "' required by ".toList ++
      ", ".toList.intercalate ((m.referrers.map Referrer.text).map String.toList) := by
    rw [Missing.text]
    simp only [String.toList_append, String.toList_intercalate]
  constructor
  · refine List.IsInfix.trans ?_ (within_text h)
    rw [htext, List.append_assoc]
    exact List.infix_append _ _ _
  · intro referrer hreferrer
    have hmem : referrer.text.toList ∈ (m.referrers.map Referrer.text).map String.toList :=
      List.mem_map_of_mem (List.mem_map_of_mem hreferrer)
    refine List.IsInfix.trans ?_ (within_text h)
    rw [htext]
    exact (infix_intercalate hmem).trans (List.suffix_append _ _).isInfix

end MissingReport

theorem Document.trace_of_load_eq_error {α : Type} [Kind α] {storage : Storage} {path : String}
    {e : GrammarError} (h : (load storage path : Except GrammarError α) = .error e) : e.trace = [] := by
  unfold load parse at h
  split at h
  · cases h
    rfl
  · split at h
    · cases h
      rfl
    · dsimp only at h
      split at h <;> split at h <;> cases h <;> rfl

/-- A vocabulary that cannot be had fails with an error of which nothing is logged. -/
def Vocabulary.Quiet (v : Vocabulary) : Prop := ∀ e, v.productions = .error e → e.trace = []

namespace Vocabulary

theorem quiet_inline (language : String) (ps : List Production) : (inline language ps).Quiet := fun _ h => nomatch h

theorem quiet_plain (name : String) (ps : List Production) : (plain name ps).Quiet := fun _ h => nomatch h

theorem quiet_file (storage : Storage) (path : String) : (file storage path).Quiet := by
  intro e he
  change VocabularySpec.toProductions <$> Document.load storage path = .error e at he
  cases hload : (Document.load storage path : Except GrammarError VocabularySpec) with
  | error e' =>
    rw [hload] at he
    obtain rfl := Except.error.inj he
    exact Document.trace_of_load_eq_error hload
  | ok v =>
    rw [hload] at he
    cases he

/-- What a merge comes to with some error, as far as it is not the error of the vocabulary:
that one is handed on as it is. -/
def raised (v : Vocabulary) (e : Option GrammarError) : Option GrammarError :=
  match v.productions with
  | .ok _ => e
  | .error _ => none

end Vocabulary

namespace Call

/-- The error of a call, unless it is that of a vocabulary. -/
def raised : Call → Option GrammarError → Option GrammarError
  | add _, e => e
  | merge v, e => v.raised e

theorem raised_none (c : Call) : c.raised none = none := by
  cases c with
  | add p => rfl
  | merge v =>
    rw [raised, Vocabulary.raised]
    split <;> rfl

/-- Nothing has to be logged if the productions cannot be had. -/
def Quiet : Call → Prop
  | add _ => True
  | merge v => v.Quiet

/-- What a call logs before it adds anything. -/
def announcement (language : String) : Call → List Log.Entry
  | add _ => []
  | merge v =>
    match v.productions with
    | .ok ps => [⟨.info, "Merging " ++ toString ps.length ++ " productions from vocabulary '" ++ v.name
        ++ "' into '" ++ language ++ "'"⟩]
    | .error _ => []

theorem level_of_mem_announcement {language : String} {c : Call} {e : Log.Entry}
    (h : e ∈ c.announcement language) : e.level = .info := by
  cases c with
  | add p => cases h
  | merge v =>
    rw [announcement] at h
    split at h
    · rw [List.mem_singleton.1 h]
    · cases h

theorem errors_announcement (c : Call) (language : String) : Log.errors (c.announcement language) = [] := by
  refine List.filter_eq_nil_iff.2 fun e he => ?_
  rw [level_of_mem_announcement he]
  decide

end Call

namespace Assembly

theorem on_bind_of_none {w w' : Assembly Unit} {t u : Table} {es : List Log.Entry}
    (h : w.on t = ⟨(u, none), es⟩) :
    (w >>= fun _ => w').on t = ⟨(w'.on u).value, es ++ (w'.on u).entries⟩ := by
  rw [on_bind, h]
  rfl

theorem on_bind_of_some {w w' : Assembly Unit} {t u : Table} {e : GrammarError} {es : List Log.Entry}
    (h : w.on t = ⟨(u, some e), es⟩) : (w >>= fun _ => w').on t = ⟨(u, some e), es⟩ := by
  rw [on_bind, h]
  exact congrArg (Logged.mk _) (List.append_nil es)

/-- Adding productions logs nothing but the error it ends with. -/
theorem entries_addAll (ps : List Production) (t : Table) :
    ((addAll ps).on t).entries = GrammarError.traceOf ((addAll ps).on t).value.2 := by
  induction ps generalizing t with
  | nil => rfl
  | cons p ps ih =>
    rw [addAll_cons]
    by_cases hp : p.name ∈ t.names
    · rw [on_bind_of_some (on_add_of_mem hp)]
      rfl
    · obtain ⟨u, hu, -⟩ := on_add_of_not_mem hp
      rw [on_bind_of_none hu, List.nil_append, ih]

/-- A call logs its announcement, and then the error it ends with if it is its own. -/
theorem entries_work (c : Call) (t : Table) : (c.work.on t).entries =
    c.announcement t.language ++ GrammarError.traceOf (c.raised (c.work.on t).value.2) := by
  cases c with
  | add p =>
    by_cases hp : p.name ∈ t.names
    · rw [Call.work, on_add_of_mem hp, Call.raised, GrammarError.traceOf_duplicateDefinition]
      rfl
    · obtain ⟨u, hu, -⟩ := on_add_of_not_mem hp
      rw [Call.work, hu]
      rfl
  | merge v =>
    rw [Call.work, Call.announcement, Call.raised, Vocabulary.raised]
    cases hv : v.productions with
    | error e =>
      rw [on_merge_of_error hv]
      rfl
    | ok ps =>
      rw [on_merge_of_ok hv, entries_addAll]
      rfl

theorem errors_work (c : Call) (t : Table) :
    Log.errors (c.work.on t).entries = GrammarError.traceOf (c.raised (c.work.on t).value.2) := by
  rw [entries_work, Log.errors_append, c.errors_announcement, Log.errors_traceOf, List.nil_append]

/-- The error of a vocabulary makes no difference where nothing is logged of it. -/
theorem traceOf_raised {c : Call} (h : c.Quiet) (t : Table) :
    GrammarError.traceOf (c.raised (c.work.on t).value.2) = GrammarError.traceOf (c.work.on t).value.2 := by
  cases c with
  | add p => rfl
  | merge v =>
    rw [Call.raised, Vocabulary.raised]
    cases hv : v.productions with
    | error e =>
      rw [Call.work, on_merge_of_error hv, GrammarError.traceOf_some, h e hv]
      rfl
    | ok ps => rfl

theorem unwarned_work (c : Call) (t : Table) : ∀ e ∈ (c.work.on t).entries, e.level ≠ .warn := by
  intro e he
  rw [entries_work] at he
  rcases List.mem_append.1 he with he | he
  · rw [Call.level_of_mem_announcement he]
    decide
  · rw [GrammarError.level_of_mem_traceOf he]
    decide

end Assembly

namespace Table

/-- The calls that are made of some in a row, up to the first that fails, each with
the table it is made on. -/
def reached (t : Table) : List Call → List (Table × Call)
  | [] => []
  | c :: rest => (t, c) ::
    match t.call c with
    | (u, none) => reached u rest
    | (_, some _) => []

theorem reached_cons_of_none {t u : Table} {c : Call} {calls : List Call} (h : t.call c = (u, none)) :
    t.reached (c :: calls) = (t, c) :: u.reached calls := by
  rw [reached, h]

theorem reached_cons_of_some {t u : Table} {c : Call} {calls : List Call} {e : GrammarError}
    (h : t.call c = (u, some e)) : t.reached (c :: calls) = [(t, c)] := by
  rw [reached, h]

/-- Calls in a row log what each of those reached logs, and end with the error of the last. -/
theorem on_forM_work (calls : List Call) (t : Table) :
    ((calls.forM Call.work).on t).entries = (t.reached calls).flatMap (fun r => (r.2.work.on r.1).entries) ∧
      GrammarError.traceOf ((calls.forM Call.work).on t).value.2 =
        (t.reached calls).flatMap fun r => GrammarError.traceOf (r.2.work.on r.1).value.2 := by
  induction calls generalizing t with
  | nil => exact ⟨rfl, rfl⟩
  | cons c calls ih =>
    rw [List.forM_eq_forM, List.forM_cons]
    rcases hc : c.work.on t with ⟨⟨u, _ | e⟩, es⟩
    · obtain ⟨hentries, htrace⟩ := ih u
      rw [Assembly.on_bind_of_none hc, reached_cons_of_none (congrArg Logged.value hc), List.flatMap_cons,
        List.flatMap_cons, hc, ← hentries, ← htrace]
      exact ⟨rfl, rfl⟩
    · rw [Assembly.on_bind_of_some hc, reached_cons_of_some (congrArg Logged.value hc), List.flatMap_singleton,
        List.flatMap_singleton, hc]
      exact ⟨rfl, rfl⟩

theorem mem_of_mem_reached {t : Table} {calls : List Call} {r : Table × Call} (h : r ∈ t.reached calls) :
    r.2 ∈ calls := by
  induction calls generalizing t with
  | nil => cases h
  | cons c calls ih =>
    rcases hc : t.call c with ⟨u, _ | e⟩
    · rw [reached_cons_of_none hc, List.mem_cons] at h
      rcases h with rfl | h
      · exact List.mem_cons_self ..
      · exact List.mem_cons_of_mem _ (ih h)
    · rw [reached_cons_of_some hc, List.mem_singleton] at h
      exact h ▸ List.mem_cons_self ..

theorem errors_forM_work {calls : List Call} (h : ∀ c ∈ calls, c.Quiet) (t : Table) :
    Log.errors ((calls.forM Call.work).on t).entries =
      GrammarError.traceOf ((calls.forM Call.work).on t).value.2 := by
  rw [(on_forM_work calls t).1, (on_forM_work calls t).2, Log.errors, List.filter_flatMap]
  refine List.flatMap_congr fun r hr => ?_
  exact (Assembly.errors_work r.2 r.1).trans (Assembly.traceOf_raised (h _ (mem_of_mem_reached hr)) r.1)

theorem unwarned_forM_work (calls : List Call) (t : Table) :
    ∀ e ∈ ((calls.forM Call.work).on t).entries, e.level ≠ .warn := by
  intro e he
  rw [(on_forM_work calls t).1] at he
  obtain ⟨r, -, he⟩ := List.mem_flatMap.1 he
  exact Assembly.unwarned_work r.2 r.1 e he

end Table

instance : LawfulMonad Logged := LawfulMonad.mk' Logged
  (fun x => congrArg (Logged.mk x.value) (List.append_nil _))
  (fun _ _ => rfl)
  (fun _ _ _ => congrArg (Logged.mk _) (List.append_assoc ..))

/-- The calls that a document stands for. -/
def GrammarSpec.calls (storage : Storage) (base : String) (spec : GrammarSpec) : List Call :=
  (listed (some spec.language) spec.productions).map .add ++
    spec.vocabularies.map fun path => .merge (.file storage (Path.join base path))

theorem Assembly.document_eq (storage : Storage) (spec : GrammarSpec) (base : String) :
    document storage spec base = (spec.calls storage base).forM Call.work := by
  rw [GrammarSpec.calls, List.forM_eq_forM, List.forM_append, List.forM_map, List.forM_map]
  rfl

theorem GrammarSpec.quiet_calls {storage : Storage} {base : String} (spec : GrammarSpec) :
    ∀ c ∈ spec.calls storage base, c.Quiet := by
  intro c hc
  rcases List.mem_append.1 hc with hc | hc
  · obtain ⟨p, -, rfl⟩ := List.mem_map.1 hc
    exact trivial
  · obtain ⟨path, -, rfl⟩ := List.mem_map.1 hc
    exact Vocabulary.quiet_file storage (Path.join base path)

/-- Work that goes on without logging anything. -/
theorem Logged.bind_of_silent {α β : Type} {w : Logged α} {k : α → Logged β} (h : ∀ a, (k a).entries = []) :
    w >>= k = ⟨(k w.value).value, w.entries⟩ :=
  congrArg (Logged.mk _) ((congrArg (w.entries ++ ·) (h w.value)).trans (List.append_nil _))

/-- The error of an outcome. -/
def GrammarError.ofOutcome? {α : Type} : Except GrammarError α → Option GrammarError
  | .ok _ => none
  | .error e => some e

namespace Table

/-- The calls that making the table of a document comes to. -/
def callsOf (storage : Storage) (spec : GrammarSpec) (base : String) : List (Table × Call) :=
  match new spec.language spec.caseSensitive with
  | .ok t => t.reached (spec.calls storage base)
  | .error _ => []

theorem entries_ofSpec (storage : Storage) (spec : GrammarSpec) (base : String) :
    (ofSpec storage spec base).entries =
      (callsOf storage spec base).flatMap fun r => (r.2.work.on r.1).entries := by
  rw [ofSpec, callsOf]
  cases new spec.language spec.caseSensitive with
  | error e => rfl
  | ok t =>
    dsimp only
    rw [Logged.bind_of_silent (by rintro ⟨_, _ | _⟩ <;> rfl), Assembly.document_eq, (on_forM_work _ t).1]

theorem errors_ofSpec (storage : Storage) (spec : GrammarSpec) (base : String) :
    Log.errors (ofSpec storage spec base).entries =
      GrammarError.traceOf (GrammarError.ofOutcome? (ofSpec storage spec base).value) := by
  rw [ofSpec]
  cases hnew : new spec.language spec.caseSensitive with
  | error e =>
    obtain ⟨-, rfl⟩ := new_eq_error_iff.1 hnew
    rfl
  | ok t =>
    dsimp only
    rw [Logged.bind_of_silent (by rintro ⟨_, _ | _⟩ <;> rfl), Assembly.document_eq,
      errors_forM_work spec.quiet_calls]
    rcases (((spec.calls storage base).forM Call.work).on t).value with ⟨u, _ | e⟩ <;> rfl

theorem unwarned_ofSpec (storage : Storage) (spec : GrammarSpec) (base : String) :
    ∀ e ∈ (ofSpec storage spec base).entries, e.level ≠ .warn := by
  rw [ofSpec]
  cases new spec.language spec.caseSensitive with
  | error e => exact fun _ he => absurd he List.not_mem_nil
  | ok t =>
    dsimp only
    rw [Logged.bind_of_silent (by rintro ⟨_, _ | _⟩ <;> rfl), Assembly.document_eq]
    exact unwarned_forM_work (spec.calls storage base) t

theorem errors_load (storage : Storage) (path : String) : Log.errors (load storage path).entries =
    GrammarError.traceOf (GrammarError.ofOutcome? (load storage path).value) := by
  unfold load
  split
  · next e h => exact ((GrammarError.traceOf_some e).trans (Document.trace_of_load_eq_error h)).symm
  · exact errors_ofSpec ..

/-- Loading a grammar warns of nothing. -/
theorem unwarned_load (storage : Storage) (path : String) : ∀ e ∈ (load storage path).entries, e.level ≠ .warn := by
  unfold load
  split
  · exact fun _ he => absurd he List.not_mem_nil
  · exact unwarned_ofSpec storage _ _

theorem errors_resolve (t : Table) (arrange : ProductionMap → ProductionMap)
    (options : List ResolutionOption) : Log.errors (t.resolve arrange options).entries =
      GrammarError.traceOf (GrammarError.ofOutcome? (t.resolve arrange options).value) := by
  by_cases h : t.requests options = []
  · have hnote : Log.errors (t.idleNote options) = [] := by
      unfold idleNote
      split
      · rfl
      · split <;> rfl
    rw [entries_of_complete arrange h, resolve_of_complete arrange h, Log.errors_append, hnote]
    rfl
  · rw [resolve_of_missing arrange h]
    exact (GrammarError.traceOf_missingProductions _).symm

end Table

end Ebnf
