import Ebnf.Proofs.Closure
import Ebnf.Proofs.MissingNames
/-! What a resolution logs. A failure, for which something has to be missing, logs
its own report and nothing else. A success logs the idle productions, if there are any, and then the language: a
production is idle if the grammar does not start from it and no body mentions
it. A body counts as a mention even if it is the production's own. -/

namespace Ebnf.Table

variable {t : Table} {options : List ResolutionOption}

/-- Whether a grammar starts from a production: the one named after the language
if there is one, and every production of the language otherwise. -/
def Starts (t : Table) (p : Production) : Prop :=
  if t.language ∈ t.names then p.name = t.language else p.vocabulary = some t.language

instance (t : Table) (p : Production) : Decidable (t.Starts p) := by
  unfold Starts
  infer_instance

/-- The productions that the grammar does not start from and that no body mentions. -/
def idle (t : Table) : List Production :=
  t.toList.filter fun p => ¬ t.Starts p ∧ ∀ q ∈ t.toList, p.name ∉ q.body.names

theorem mem_idle {p : Production} :
    p ∈ t.idle ↔ p ∈ t.toList ∧ ¬ t.Starts p ∧ ∀ q ∈ t.toList, p.name ∉ q.body.names := by
  rw [idle, List.mem_filter, decide_eq_true_iff]

/-- Where no root is missing, it makes no difference whether one is asked for. -/
theorem isRoot_iff_starts (h : ¬ t.LacksRoot options) (p : Production) :
    t.IsRoot options p ↔ t.Starts p := by
  unfold IsRoot Starts
  split
  · rfl
  · next hn =>
    have ho : .allowRootless ∈ options := by
      by_contra ho
      exact h ⟨hn, ho⟩
    exact and_iff_right ho

/-- The productions that a scan does not cross off. -/
theorem map_production_scan (h : ¬ t.LacksRoot options) :
    (t.scan options).2.map t.production = t.idle := by
  rw [scan_eq, idle, ← map_production_filter]
  refine congrArg (List.map t.production) (List.filter_congr fun id _ => ?_)
  rw [decide_eq_decide, isRoot_iff_starts h]

theorem unused_eq (h : ¬ t.LacksRoot options) : t.unused options = t.idle.map Production.name := by
  rw [← names_scan, ← map_production_scan h, List.map_map]
  rfl

theorem value?_id (id : t.Id) : t.productions.value? id = some (t.production id) :=
  List.getElem?_eq_getElem id.isLt

/-- What is logged about idle productions: a warning, or a remark if unused
productions are no reason for one. -/
def idleNote (t : Table) (options : List ResolutionOption) : List Log.Entry :=
  if t.idle = [] then []
  else if .skipUnused ∈ options then
    [⟨.debug, "Keeping unused productions: " ++ ", ".intercalate (t.idle.map Production.name)⟩]
  else [⟨.warn, "Unused productions: " ++ ", ".intercalate (t.idle.map Production.name)⟩]

theorem entries_noteUnused (t : Table) (options : List ResolutionOption) :
    (noteUnused (t.idle.map Production.name) options).entries = t.idleNote options := by
  unfold noteUnused idleNote
  by_cases h : t.idle = []
  · rw [if_pos h, h]
    rfl
  · have hnames : (t.idle.map Production.name).isEmpty ≠ true := by
      rwa [List.isEmpty_map, ne_eq, List.isEmpty_iff]
    rw [if_neg h, if_neg hnames]
    split <;> rfl

theorem entries_of_complete (arrange : ProductionMap → ProductionMap) (h : t.requests options = []) :
    (t.resolve arrange options).entries =
      t.idleNote options ++ [⟨.info, "Resolved grammar '" ++ t.language ++ "'"⟩] := by
  rw [resolve_of_complete arrange h, unused_eq (requests_eq_nil_iff_closed.1 h).1, entries_noteUnused]

/-- Everything a resolution logs. It fails if anything is asked for in vain, and goes
through otherwise; then each number that the scan leaves over is the number of an idle
production. -/
theorem resolve_logs (t : Table) (arrange : ProductionMap → ProductionMap)
    (options : List ResolutionOption) :
    match (t.resolve arrange options).value with
    | .error e => t.absent options ≠ [] ∧ (t.resolve arrange options).entries = [⟨.error, e.message⟩]
    | .ok _ => t.absent options = [] ∧
      (t.scan options).2.map (fun id : t.Id => t.productions.value? id) = t.idle.map some ∧
        (t.resolve arrange options).entries =
          t.idleNote options ++ [⟨.info, "Resolved grammar '" ++ t.language ++ "'"⟩] := by
  by_cases h : t.requests options = []
  · rw [entries_of_complete arrange h, resolve_of_complete arrange h]
    refine ⟨(t.requests_eq_nil_iff options).1 h, ?_, rfl⟩
    rw [← map_production_scan (requests_eq_nil_iff_closed.1 h).1, List.map_map]
    exact List.map_congr_left fun id _ => value?_id id
  · rw [resolve_of_missing arrange h]
    exact ⟨mt (t.requests_eq_nil_iff options).2 h, rfl⟩

/-- The root, a production that only itself mentions, and one that nothing mentions. -/
def selfMention : Table where
  language := "reef"
  caseSensitive := true
  productions :=
    ⟨[("reef", ⟨"reef", none, some "reef", .epsilon⟩),
      ("ring", ⟨"ring", none, some "reef", .optional (.nonTerminal "ring")⟩),
      ("spare", ⟨"spare", none, some "reef", .nonTerminal "reef"⟩)], by decide⟩
  language_ne := by decide
  keyed := by simp
  tagged := by simp

/-- The unused production is kept without a warning. Without a root there is an error. -/
theorem resolve_logs_selfMention :
    (selfMention.resolve id [.skipUnused]).entries =
      [⟨.debug, "Keeping unused productions: spare"⟩, ⟨.info, "Resolved grammar 'reef'"⟩] ∧
    (rootMentioned.resolve id []).entries =
      [⟨.error, "Missing productions:\n\t'base' required by root of grammar 'base', production 'a'" ++
        "\n\t'X' required by production 'a'"⟩] := by
  have hunused := resolve_logs selfMention id [.skipUnused]
  have hmissing := resolve_logs rootMentioned id []
  constructor
  · cases hvalue : (selfMention.resolve id [.skipUnused]).value with
    | error e =>
      rw [hvalue] at hunused
      exact absurd (show selfMention.absent [.skipUnused] = [] by decide) hunused.1
    | ok g =>
      rw [hvalue] at hunused
      rw [hunused.2.2]
      decide
  · cases hvalue : (rootMentioned.resolve id []).value with
    | error e =>
      rw [hvalue] at hmissing
      rw [hmissing.2, (eq_of_error id hvalue).2]
      decide
    | ok g =>
      rw [hvalue] at hmissing
      exact absurd hmissing.1 (show rootMentioned.absent [] ≠ [] by decide)

theorem name_mem_idle_iff {p : Production} (hp : p ∈ t.toList) :
    p.name ∈ t.idle.map Production.name ↔ p ∈ t.idle := by
  refine ⟨fun h => ?_, List.mem_map_of_mem⟩
  obtain ⟨q, hq, hname⟩ := List.mem_map.1 h
  exact List.inj_on_of_nodup_map t.nodup_names (mem_idle.1 hq).1 hp hname ▸ hq

theorem warnings_idleNote (h : .skipUnused ∉ options) :
    (t.idleNote options).filter (·.level = .warn) = t.idleNote options := by
  unfold idleNote
  rw [if_neg h]
  split <;> rfl

/-- A production that the grammar does not start from and that no other one
mentions is among those warned about, unless it mentions itself. -/
theorem resolve_warns {arrange : ProductionMap → ProductionMap} {g : Grammar} {p : Production}
    (hskip : .skipUnused ∉ options) (hok : (t.resolve arrange options).value = .ok g)
    (hp : p ∈ t.toList) (hstart : ¬ t.Starts p)
    (hothers : ∀ q ∈ t.toList, q ≠ p → p.name ∉ q.body.names) :
    ∃ unused : List String, (p.name ∈ unused ↔ p.name ∉ p.body.names) ∧
      (t.resolve arrange options).entries.filter (·.level = .warn) =
        if unused = [] then [] else [⟨.warn, "Unused productions: " ++ ", ".intercalate unused⟩] := by
  refine ⟨t.idle.map Production.name, ?_, ?_⟩
  · rw [name_mem_idle_iff hp, mem_idle]
    constructor
    · rintro ⟨-, -, h⟩
      exact h p hp
    · intro hself
      refine ⟨hp, hstart, fun q hq => ?_⟩
      by_cases hqp : q = p
      · exact hqp ▸ hself
      · exact hothers q hq hqp
  · rw [entries_of_complete arrange (requests_of_ok arrange hok), List.filter_append,
      warnings_idleNote hskip]
    simp [idleNote, hskip]

theorem requests_selfMention : selfMention.requests [] = [] := by decide

theorem resolve_warns_selfMention : ∃ g, (selfMention.resolve id []).value = .ok g ∧ ∃ unused, "spare" ∈ unused ∧
    (selfMention.resolve id []).entries.filter (·.level = .warn) =
      [⟨.warn, "Unused productions: " ++ ", ".intercalate unused⟩] := by
  have hg := congrArg Logged.value (resolve_of_complete id requests_selfMention)
  obtain ⟨unused, hmem, hwarn⟩ := resolve_warns (t := selfMention)
    (p := ⟨"spare", none, some "reef", .nonTerminal "reef"⟩) List.not_mem_nil hg
    (by decide) (by decide) (by decide)
  have hspare : "spare" ∈ unused := hmem.2 (by decide)
  exact ⟨_, hg, unused, hspare, by rw [hwarn, if_neg (List.ne_nil_of_mem hspare)]⟩

/-- The ring is mentioned by no other production, and the warning does not name it. -/
theorem selfMention_not_warned : ∃ g p, (selfMention.resolve id []).value = .ok g ∧ p ∈ selfMention.toList ∧
    p.name = "ring" ∧ ¬ selfMention.Starts p ∧ (∀ q ∈ selfMention.toList, q ≠ p → p.name ∉ q.body.names) ∧
    (selfMention.resolve id []).entries =
      [⟨.warn, "Unused productions: spare"⟩, ⟨.info, "Resolved grammar 'reef'"⟩] := by
  refine ⟨_, ⟨"ring", none, some "reef", .optional (.nonTerminal "ring")⟩,
    congrArg Logged.value (resolve_of_complete id requests_selfMention), by decide, rfl, by decide, by decide, ?_⟩
  rw [entries_of_complete id requests_selfMention]
  decide

end Ebnf.Table
