import Ebnf.Proofs.Trace
import Ebnf.Session
/-! The journal of a session: everything that a run of commands logs, in order. The errors
in it are those that the answers tell of, one for one, apart from errors that a vocabulary
hands out: those are returned, and nothing is logged of them. -/

namespace Ebnf

namespace Answer

/-- The error that an answer tells of. -/
def error? : Answer → Option GrammarError
  | failed e _ => some e
  | _ => none

end Answer

namespace Command

/-- Whether a command puts an entry of its own into the log. -/
def pushes : Command → Bool
  | push _ => true
  | _ => false

/-- Whether a command empties the log. -/
def drains : Command → Bool
  | drain => true
  | _ => false

/-- Whether a command makes a table or adds to one. -/
def assembles : Command → Bool
  | new .. | load .. | fromSpec .. | add .. | merge .. => true
  | _ => false

/-- The error that the answer to a command tells of, unless it is that of a vocabulary. -/
def raised : Command → Answer → Option GrammarError
  | merge _ v, a => v.raised a.error?
  | _, a => a.error?

/-- A vocabulary that is to be merged fails with an error of which nothing is logged, if at all. -/
def Quiet : Command → Prop
  | merge _ v => v.Quiet
  | _ => True

end Command

namespace Session

variable (storage : Storage) (s : Session)

/-- A step that makes a table logs what making it logs. -/
theorem keep_eq (name : String) (work : Logged (Except GrammarError Table)) :
    s.keep name work = ⟨match work.value with
      | .ok t => (s.setTable name t, .size t.size)
      | .error e => (s, .failed e none), work.entries⟩ := by
  rw [keep, Logged.bind_of_silent (by rintro (_ | _) <;> rfl)]
  cases work.value <;> rfl

theorem change_of_none {name : String} (h : s.tables name = none) (work : Assembly Unit) :
    s.change name work = ⟨(s, .noTable name), []⟩ := by
  rw [change, h]
  rfl

/-- A step that adds to a table logs what the work on it logs. -/
theorem change_of_some {name : String} {t : Table} (h : s.tables name = some t) (work : Assembly Unit) :
    s.change name work = ⟨match (work.on t).value with
      | (u, none) => (s.setTable name u, .size u.size)
      | (u, some e) => (s.setTable name u, .failed e (some u.size)), (work.on t).entries⟩ := by
  rw [change, h]
  dsimp only
  rw [Logged.bind_of_silent (by rintro ⟨_, _ | _⟩ <;> rfl)]
  rcases (work.on t).value with ⟨u, _ | e⟩ <;> rfl

theorem resolve_of_none {table : String} (h : s.tables table = none) (grammar : String)
    (arrange : ProductionMap → ProductionMap) (options : List ResolutionOption) :
    s.resolve table grammar arrange options = ⟨(s, .noTable table), []⟩ := by
  rw [resolve, h]
  rfl

theorem resolve_of_some {table : String} {t : Table} (h : s.tables table = some t) (grammar : String)
    (arrange : ProductionMap → ProductionMap) (options : List ResolutionOption) :
    s.resolve table grammar arrange options = ⟨match (t.resolve arrange options).value with
      | .ok g => ((s.setTable table none).setGrammar grammar g, .resolved g)
      | .error e => (s.setTable table none, .failed e none), (t.resolve arrange options).entries⟩ := by
  rw [resolve, h]
  dsimp only
  rw [Logged.bind_of_silent (by rintro (_ | _) <;> rfl)]
  cases (t.resolve arrange options).value <;> rfl

theorem errors_keep (name : String) {work : Logged (Except GrammarError Table)}
    (h : Log.errors work.entries = GrammarError.traceOf (GrammarError.ofOutcome? work.value)) :
    Log.errors (s.keep name work).entries = GrammarError.traceOf (s.keep name work).value.2.error? := by
  rw [keep_eq, h]
  cases work.value <;> rfl

theorem error?_change (name : String) (work : Assembly Unit) :
    (s.change name work).value.2.error? = (s.tables name).bind fun t => (work.on t).value.2 := by
  cases ht : s.tables name with
  | none =>
    rw [s.change_of_none ht]
    rfl
  | some t =>
    rw [s.change_of_some ht, Option.bind_some]
    rcases (work.on t).value with ⟨u, _ | e⟩ <;> rfl

theorem errors_change (name : String) (c : Call) : Log.errors (s.change name c.work).entries =
    GrammarError.traceOf (c.raised (s.change name c.work).value.2.error?) := by
  rw [error?_change]
  cases ht : s.tables name with
  | none =>
    rw [s.change_of_none ht, Option.bind_none, c.raised_none]
    rfl
  | some t =>
    rw [s.change_of_some ht, Option.bind_some]
    exact Assembly.errors_work c t

/-- Merging a vocabulary logs every error that it returns, unless the vocabulary hands out
one that would be logged if it were not its own. -/
theorem traceOf_raised_change (name : String) {c : Call} (h : c.Quiet) :
    GrammarError.traceOf (c.raised (s.change name c.work).value.2.error?) =
      GrammarError.traceOf (s.change name c.work).value.2.error? := by
  rw [error?_change]
  cases s.tables name with
  | none => rw [Option.bind_none, c.raised_none]
  | some t => exact Assembly.traceOf_raised h t

theorem errors_resolve (table grammar : String) (arrange : ProductionMap → ProductionMap)
    (options : List ResolutionOption) : Log.errors (s.resolve table grammar arrange options).entries =
      GrammarError.traceOf (s.resolve table grammar arrange options).value.2.error? := by
  cases ht : s.tables table with
  | none =>
    rw [s.resolve_of_none ht]
    rfl
  | some t =>
    rw [s.resolve_of_some ht, t.errors_resolve]
    cases (t.resolve arrange options).value <;> rfl

theorem errors_settle (requests : List (String × Referrer)) :
    Log.errors (settle requests).entries = GrammarError.traceOf (settle requests).value.error? := by
  rw [settle, Logged.bind_of_silent (by rintro (_ | _) <;> rfl), MissingLedger.settle]
  cases (MissingLedger.ofList requests).report? with
  | none => rfl
  | some r => exact (GrammarError.traceOf_missingProductions r).symm

theorem traceOf_withTable (name : String) {answer : Table → Answer} (h : ∀ t, (answer t).error? = none) :
    GrammarError.traceOf (s.withTable name answer).error? = [] := by
  unfold withTable
  cases s.tables name with
  | none => rfl
  | some t => exact congrArg GrammarError.traceOf (h t)

/-- A question about a grammar may fail, but with nothing that is logged. -/
theorem traceOf_withGrammar (name : String) {answer : Grammar → Answer}
    (h : ∀ g, GrammarError.traceOf (answer g).error? = []) :
    GrammarError.traceOf (s.withGrammar name answer).error? = [] := by
  unfold withGrammar
  cases s.grammars name with
  | none => rfl
  | some g => exact h g

/-- A step logs as an error what its answer tells of, if the error is its own. -/
theorem errors_perform {c : Command} (h : c.pushes = false) : Log.errors (s.perform storage c).entries =
    GrammarError.traceOf (c.raised (s.perform storage c).value.2) := by
  cases c with
  | new table language caseSensitive =>
    refine s.errors_keep table ?_
    change [] = GrammarError.traceOf (GrammarError.ofOutcome? (Table.new language caseSensitive))
    cases hnew : Table.new language caseSensitive with
    | ok t => rfl
    | error e =>
      obtain ⟨-, rfl⟩ := Table.new_eq_error_iff.1 hnew
      rfl
  | load table path => exact s.errors_keep table (Table.errors_load storage path)
  | fromSpec table spec base => exact s.errors_keep table (Table.errors_ofSpec storage spec base)
  | copy table target =>
    simp only [perform]
    cases s.tables table <;> rfl
  | add table p => exact s.errors_change table (.add p)
  | merge table v => exact s.errors_change table (.merge v)
  | get table name => exact (s.traceOf_withTable table fun _ => rfl).symm
  | table table => exact (s.traceOf_withTable table fun _ => rfl).symm
  | resolve table grammar arrange options => exact s.errors_resolve table grammar arrange options
  | grammar grammar => exact (s.traceOf_withGrammar grammar fun _ => rfl).symm
  | production grammar name => exact (s.traceOf_withGrammar grammar fun _ => rfl).symm
  | description grammar name =>
    refine (s.traceOf_withGrammar grammar fun g => ?_).symm
    rw [describe, Grammar.description]
    cases g.production? name <;> rfl
  | render grammar limit => exact (s.traceOf_withGrammar grammar fun _ => rfl).symm
  | visit grammar failOn =>
    refine (s.traceOf_withGrammar grammar fun g => ?_).symm
    rw [visit]
    split <;> rfl
  | compare a b =>
    change [] = GrammarError.traceOf (s.compare a b).error?
    rw [compare]
    split <;> rfl
  | settle requests =>
    have hwork : s.perform storage (.settle requests) = settle requests >>= fun a => pure (s, a) := rfl
    rw [hwork, Logged.bind_of_silent fun _ => rfl]
    exact errors_settle requests
  | push entry => cases h
  | drain => rfl
  | messagesAt level => rfl
  | logText => rfl

theorem traceOf_raised {c : Command} (h : c.Quiet) : GrammarError.traceOf (c.raised (s.perform storage c).value.2) =
    GrammarError.traceOf (s.perform storage c).value.2.error? := by
  cases c with
  | merge table v => exact s.traceOf_raised_change table (c := .merge v) h
  | _ => rfl

/-- Everything that a run of commands logs, in order. -/
def journal (s : Session) : List Command → List Log.Entry
  | [] => []
  | c :: rest => (s.perform storage c).entries ++ journal (s.step storage c).1 rest

theorem errors_journal {commands : List Command} (h : ∀ c ∈ commands, c.pushes = false) :
    Log.errors (s.journal storage commands) =
      (commands.zip (s.run storage commands).2).flatMap fun r => GrammarError.traceOf (r.1.raised r.2) := by
  induction commands generalizing s with
  | nil => rfl
  | cons c rest ih =>
    obtain ⟨hc, hrest⟩ := List.forall_mem_cons.1 h
    rw [journal, Log.errors_append, s.errors_perform storage hc, ih _ hrest]
    rfl

/-- Where no vocabulary hands out such an error, it makes no difference whose error it is. -/
theorem flatMap_traceOf_raised {commands : List Command} (h : ∀ c ∈ commands, c.Quiet) :
    (commands.zip (s.run storage commands).2).flatMap (fun r => GrammarError.traceOf (r.1.raised r.2)) =
      (s.run storage commands).2.flatMap fun a => GrammarError.traceOf a.error? := by
  induction commands generalizing s with
  | nil => rfl
  | cons c rest ih =>
    obtain ⟨hc, hrest⟩ := List.forall_mem_cons.1 h
    exact congrArg₂ (· ++ ·) (s.traceOf_raised storage hc) (ih _ hrest)

theorem log_keep (name : String) (work : Logged (Except GrammarError Table)) :
    (s.keep name work).value.1.log = s.log := by
  rw [keep_eq]
  cases work.value <;> rfl

theorem log_change (name : String) (work : Assembly Unit) : (s.change name work).value.1.log = s.log := by
  cases ht : s.tables name with
  | none => rw [s.change_of_none ht]
  | some t =>
    rw [s.change_of_some ht]
    rcases (work.on t).value with ⟨u, _ | e⟩ <;> rfl

theorem log_resolve (table grammar : String) (arrange : ProductionMap → ProductionMap)
    (options : List ResolutionOption) :
    (s.resolve table grammar arrange options).value.1.log = s.log := by
  cases ht : s.tables table with
  | none => rw [s.resolve_of_none ht]
  | some t =>
    rw [s.resolve_of_some ht]
    cases (t.resolve arrange options).value <;> rfl

theorem log_perform {c : Command} (h : c.drains = false) : (s.perform storage c).value.1.log = s.log := by
  cases c with
  | new table language caseSensitive => exact s.log_keep table _
  | load table path => exact s.log_keep table _
  | fromSpec table spec base => exact s.log_keep table _
  | copy table target =>
    simp only [perform]
    cases s.tables table <;> rfl
  | add table p => exact s.log_change table _
  | merge table v => exact s.log_change table _
  | resolve table grammar arrange options => exact s.log_resolve table grammar arrange options
  | drain => cases h
  | _ => rfl

theorem log_run {commands : List Command} (h : ∀ c ∈ commands, c.drains = false) :
    (s.run storage commands).1.log = s.log.pushAll (s.journal storage commands) := by
  induction commands generalizing s with
  | nil => rfl
  | cons c rest ih =>
    obtain ⟨hc, hrest⟩ := List.forall_mem_cons.1 h
    have hstep : (s.step storage c).1.log = s.log.pushAll (s.perform storage c).entries :=
      congrArg (Log.pushAll · _) (s.log_perform storage hc)
    rw [journal, run, Log.pushAll, List.foldl_append]
    exact (ih _ hrest).trans (congrArg (Log.pushAll · _) hstep)

/-- The calls that a step makes on tables, each with the table it is made on. -/
def calls : Command → List (Table × Call)
  | .fromSpec _ spec base => Table.callsOf storage spec base
  | .load _ path =>
    match Document.load storage path with
    | .ok spec => Table.callsOf storage spec (Path.parent path)
    | .error _ => []
  | .add table p => (s.tables table).toList.map fun t => (t, .add p)
  | .merge table v => (s.tables table).toList.map fun t => (t, .merge v)
  | _ => []

theorem entries_keep (name : String) (work : Logged (Except GrammarError Table)) :
    (s.keep name work).entries = work.entries := by
  rw [keep_eq]

theorem entries_change (name : String) (c : Call) : (s.change name c.work).entries =
    ((s.tables name).toList.map fun t => (t, c)).flatMap fun r => (r.2.work.on r.1).entries := by
  cases ht : s.tables name with
  | none =>
    rw [s.change_of_none ht]
    rfl
  | some t =>
    rw [s.change_of_some ht]
    exact (List.append_nil _).symm

/-- A step that makes a table or adds to one logs what its calls log. -/
theorem entries_perform {c : Command} (h : c.assembles) : (s.perform storage c).entries =
    (s.calls storage c).flatMap fun r => (r.2.work.on r.1).entries := by
  cases c with
  | new table language caseSensitive => exact s.entries_keep table _
  | load table path =>
    refine (s.entries_keep table _).trans ?_
    rw [Table.load, calls]
    cases (Document.load storage path : Except GrammarError GrammarSpec) with
    | error e => rfl
    | ok spec => exact Table.entries_ofSpec ..
  | fromSpec table spec base => exact (s.entries_keep table _).trans (Table.entries_ofSpec ..)
  | add table p => exact s.entries_change table (.add p)
  | merge table v => exact s.entries_change table (.merge v)
  | _ => cases h

/-- The errors a session logs are those it returns, one for one and in order, as far as
they tell of a taken name or of missing names. Only an error of either kind that a vocabulary
hands out itself is returned without being logged; none that is given in a command or is read
from a file does that. A step that makes a table or adds to one logs what its calls log; a
vocabulary that can be had is announced once, with all its productions, before anything else. -/
theorem run_logs_errors (commands : List Command) (hpush : ∀ c ∈ commands, c.pushes = false) :
    Log.errors (s.journal storage commands) =
        (commands.zip (s.run storage commands).2).flatMap (fun r => GrammarError.traceOf (r.1.raised r.2)) ∧
      ((∀ c ∈ commands, c.Quiet) → Log.errors (s.journal storage commands) =
        (s.run storage commands).2.flatMap fun a => GrammarError.traceOf a.error?) ∧
      (∀ table, (∀ language ps, (Command.merge table (.inline language ps)).Quiet) ∧
        (∀ name ps, (Command.merge table (.plain name ps)).Quiet) ∧
        ∀ path, (Command.merge table (.file storage path)).Quiet) ∧
      ((∀ c ∈ commands, c.drains = false) →
        (s.run storage commands).1.log = s.log.pushAll (s.journal storage commands)) ∧
      (∀ (s : Session) (c : Command), c.assembles → (s.perform storage c).entries =
        (s.calls storage c).flatMap fun r => (r.2.work.on r.1).entries) ∧
      (∀ (v : Vocabulary) (t : Table), ((Assembly.merge v).on t).entries =
        match v.productions with
        | .error _ => []
        | .ok ps => ⟨.info, "Merging " ++ toString ps.length ++ " productions from vocabulary '" ++ v.name
            ++ "' into '" ++ t.language ++ "'"⟩ ::
          GrammarError.traceOf ((Assembly.merge v).on t).value.2) ∧
      ∀ r : MissingReport, ∀ m ∈ r.items,
        m.name.toList <:+: (GrammarError.missingProductions r).message.toList ∧
          ∀ referrer ∈ m.referrers,
            referrer.text.toList <:+: (GrammarError.missingProductions r).message.toList := by
  have herrors := s.errors_journal storage hpush
  refine ⟨herrors, fun hquiet => herrors.trans (s.flatMap_traceOf_raised storage hquiet), fun table => ?_,
    s.log_run storage, fun s c hc => s.entries_perform storage hc, fun v t => ?_,
    fun r m hm => MissingReport.within_message hm⟩
  · exact ⟨Vocabulary.quiet_inline, Vocabulary.quiet_plain, Vocabulary.quiet_file storage⟩
  · cases hv : v.productions with
    | error e => rw [Assembly.on_merge_of_error hv]
    | ok ps => rw [Assembly.on_merge_of_ok hv, Assembly.entries_addAll]

/-- A storage in which nothing is found. -/
def emptyStorage : Storage := fun _ => .error .notFound

/-- Commands that fail in several ways: a name that is taken, a clash within a vocabulary,
an empty language, names reported as missing, vocabularies that cannot be had, and a table
without its root. -/
def failingCommands : List Command :=
  [.new "t" "lang" true, .new "u" "" true, .add "t" ⟨"x", none, none, .epsilon⟩,
    .add "t" ⟨"x", some "again", none, .epsilon⟩,
    .merge "t" (.plain "pair" [⟨"y", none, none, .epsilon⟩, ⟨"y", none, none, .epsilon⟩]),
    .settle [("z", .production "x")], .merge "t" ⟨"unnamed", .error .emptyLanguage⟩, .new "t" "lang" false,
    .merge "t" (.file emptyStorage "lost.ron"), .resolve "t" "g" id [], .grammar "g"]

/-- Commands with a vocabulary that hands out an error of its own, about a name that is taken. -/
def handingCommands : List Command :=
  [.new "t" "lang" true, .merge "t" ⟨"clash", .error (.duplicateDefinition "x")⟩]

theorem run_logs_failingCommands :
    Log.errors ((∅ : Session).journal emptyStorage failingCommands) =
      [⟨.error, "Duplicate definition of 'x' production"⟩, ⟨.error, "Duplicate definition of 'y' production"⟩,
        ⟨.error, "Missing productions:\n\t'z' required by production 'x'"⟩,
        ⟨.error, "Missing productions:\n\t'lang' required by root of grammar 'lang'"⟩] ∧
      ((∅ : Session).run emptyStorage failingCommands).1.log =
        (∅ : Session).log.pushAll ((∅ : Session).journal emptyStorage failingCommands) ∧
      ((∅ : Session).run emptyStorage handingCommands).2.map Answer.error? =
        [none, some (.duplicateDefinition "x")] ∧
      Log.errors ((∅ : Session).journal emptyStorage handingCommands) = [] := by
  obtain ⟨-, hquiet, hlibrary, hlog, -⟩ := run_logs_errors emptyStorage ∅ failingCommands (by decide)
  obtain ⟨hhanding, -⟩ := run_logs_errors emptyStorage ∅ handingCommands (by decide)
  obtain ⟨-, hplain, hfile⟩ := hlibrary "t"
  refine ⟨?_, hlog (by decide), by decide, ?_⟩
  · have hunnamed : (Command.merge "t" ⟨"unnamed", .error .emptyLanguage⟩).Quiet := by
      rintro e ⟨⟩
      rfl
    have hall : ∀ c ∈ failingCommands, c.Quiet := by
      simp only [failingCommands, List.forall_mem_cons]
      exact ⟨trivial, trivial, trivial, trivial, hplain _ _, trivial, hunnamed, trivial, hfile _, trivial,
        trivial, nofun⟩
    rw [hquiet hall]
    decide
  · rw [hhanding]
    decide

end Session

end Ebnf
