import Ebnf.Proofs.Outcome
/-! What a failed resolution reports: every name asked for in vain, once and in
order of first request, with the root and the productions that asked for it. -/

namespace Ebnf

namespace MissingLedger

theorem askers_append {as bs : List (String × Referrer)} {name : String}
    (h : ∀ r, (name, r) ∈ as → (name, r) ∉ bs) :
    askers (as ++ bs) name = askers as name ++ askers bs name := by
  have hfresh : ((bs.filter (·.1 = name)).map Prod.snd).removeAll
      ((as.filter (·.1 = name)).map Prod.snd) = (bs.filter (·.1 = name)).map Prod.snd := by
    refine List.filter_eq_self.2 fun r hr => ?_
    rw [← List.mem_eraseDups, ← askers, mem_askers] at hr
    have hn : r ∉ (as.filter (·.1 = name)).map Prod.snd := by
      rw [← List.mem_eraseDups, ← askers, mem_askers]
      exact fun ha => h r ha hr
    simpa using hn
  rw [askers, List.filter_append, List.map_append, List.eraseDups_append, hfresh, askers, askers]

/-- One referrer asks for a name once, however often it mentions it. -/
theorem askers_map (names : List String) (r : Referrer) (name : String) :
    askers (names.map fun n => (n, r)) name = if name ∈ names then [r] else [] := by
  induction names using List.reverseRecOn with
  | nil => rfl
  | append_singleton names n ih =>
    rw [List.map_append, List.map_singleton, askers_concat, ih]
    by_cases hn : n = name
    · subst hn
      by_cases hm : n ∈ names
      · simp [hm, ih]
      · simp [hm, ih]
    · simp [hn, Ne.symm hn]

/-- Distinct referrers, each with the names it asks for, are listed in their order. -/
theorem askers_flatMap {sources : List (Referrer × List String)} (h : (sources.map Prod.fst).Nodup)
    (name : String) :
    askers (sources.flatMap fun s => s.2.map fun n => (n, s.1)) name =
      (sources.filter (name ∈ ·.2)).map Prod.fst := by
  induction sources with
  | nil => rfl
  | cons s rest ih =>
    rw [List.map_cons, List.nodup_cons] at h
    rw [List.flatMap_cons, askers_append, askers_map, ih h.2, List.filter_cons]
    · by_cases hn : name ∈ s.2
      · simp [hn]
      · simp [hn]
    · intro r hr hrest
      obtain ⟨n, -, hn⟩ := List.mem_map.1 hr
      obtain ⟨s', hs', hr'⟩ := List.mem_flatMap.1 hrest
      obtain ⟨n', -, hn'⟩ := List.mem_map.1 hr'
      have he : s'.1 = s.1 := (congrArg Prod.snd hn').trans (congrArg Prod.snd hn).symm
      exact h.1 (he ▸ List.mem_map_of_mem hs')

end MissingLedger

namespace Table

variable (t : Table) (options : List ResolutionOption)

/-- The names asked for in vain, as often as they are asked for: the language if
the root is missing, then body by body, from left to right. -/
def absent : List String :=
  (if t.LacksRoot options then [t.language] else []) ++
    t.toList.flatMap fun p => p.body.names.filter (· ∉ t.names)

/-- Everyone who may ask, with what they ask for in vain. -/
def sources : List (Referrer × List String) :=
  (if t.LacksRoot options then [(.root t.language, [t.language])] else []) ++
    t.toList.map fun p => (.production p.name, p.body.names.filter (· ∉ t.names))

theorem requests_eq : t.requests options = (t.sources options).flatMap fun s => s.2.map fun n => (n, s.1) := by
  rw [requests, sources, List.flatMap_append, List.flatMap_map]
  congr 1
  split <;> rfl

theorem map_fst_requests : (t.requests options).map Prod.fst = t.absent options := by
  rw [requests, absent, List.map_append, List.map_flatMap]
  congr 1
  · split <;> rfl
  · refine List.flatMap_congr fun p _ => ?_
    rw [vain, List.map_map]
    exact List.map_id _

theorem requests_eq_nil_iff : t.requests options = [] ↔ t.absent options = [] := by
  rw [← map_fst_requests, List.map_eq_nil_iff]

theorem nodup_sources : ((t.sources options).map Prod.fst).Nodup := by
  have hp : (t.toList.map fun p => Referrer.production p.name).Nodup := by
    have h := t.nodup_names.map (f := Referrer.production) fun a b => by simp
    rwa [names, List.map_map] at h
  rw [sources, List.map_append, List.map_map]
  refine List.nodup_append.2 ⟨?_, hp, ?_⟩
  · split <;> simp
  · intro a ha b hb hab
    obtain ⟨p, -, rfl⟩ := List.mem_map.1 hb
    split at ha <;> simp [hab] at ha

theorem not_mem_names_of_mem_absent {name : String} (h : name ∈ t.absent options) : name ∉ t.names := by
  rw [absent, List.mem_append, List.mem_flatMap] at h
  rcases h with h | ⟨p, -, h⟩
  · split at h
    · next hr =>
      rw [List.mem_singleton.1 h]
      exact hr.1
    · exact absurd h List.not_mem_nil
  · simpa using (List.mem_filter.1 h).2

/-- Who asked for a missing name: the root if it is the root, then the
productions that mention it. -/
theorem askers_requests {name : String} (h : name ∉ t.names) :
    MissingLedger.askers (t.requests options) name =
      (if t.LacksRoot options ∧ name = t.language then [.root t.language] else []) ++
        (t.toList.filter (name ∈ ·.body.names)).map fun p => .production p.name := by
  have hmem : ∀ p : Production, name ∈ p.body.names.filter (· ∉ t.names) ↔ name ∈ p.body.names := by
    intro p
    rw [List.mem_filter, and_iff_left (by simpa using h)]
  rw [requests_eq, MissingLedger.askers_flatMap (t.nodup_sources options), sources, List.filter_append,
    List.map_append, List.filter_map, List.map_map]
  congr 1
  · by_cases hr : t.LacksRoot options
    · by_cases hn : name = t.language <;> simp [hr, hn]
    · simp [hr]
  · have hf : (fun p : Production => decide (name ∈ p.body.names.filter (· ∉ t.names))) =
        fun p => decide (name ∈ p.body.names) := funext fun p => by rw [decide_eq_decide, hmem]
    exact congrArg _ (congrArg (fun f => t.toList.filter f) hf)

theorem names_report : (t.report options).names = (t.absent options).eraseDups := by
  rw [← map_fst_requests]
  exact MissingReport.names_ofRequests

theorem referrers_of_mem_report {m : Missing} (h : m ∈ (t.report options).items) :
    m.referrers = MissingLedger.askers (t.requests options) m.name ∧ m.name ∈ t.absent options := by
  obtain ⟨name, hname, rfl⟩ := List.mem_map.1 h
  rw [List.mem_eraseDups, map_fst_requests] at hname
  exact ⟨rfl, hname⟩

theorem mem_referrers_report {r : Referrer} :
    r ∈ (t.report options).items.flatMap Missing.referrers ↔ ∃ name, (name, r) ∈ t.requests options :=
  MissingReport.mem_referrers_ofRequests

theorem root_mem_requests {name language : String} :
    (name, .root language) ∈ t.requests options ↔
      t.LacksRoot options ∧ name = t.language ∧ language = t.language := by
  have hv : (name, .root language) ∉ t.toList.flatMap t.vain := by
    intro h
    obtain ⟨p, -, h⟩ := List.mem_flatMap.1 h
    obtain ⟨n, -, h⟩ := List.mem_map.1 h
    cases h
  rw [requests, List.mem_append, or_iff_left hv]
  split
  · next h => simp [h]
  · next h => simp [h]

theorem missingRoot?_report : (t.report options).missingRoot? =
    if t.LacksRoot options then some t.language else none := by
  rw [MissingReport.missingRoot?]
  cases hf : ((t.report options).items.flatMap Missing.referrers).findSome? Referrer.language? with
  | none =>
    rw [List.findSome?_eq_none_iff] at hf
    rw [if_neg]
    intro hr
    have hm := (mem_referrers_report t options).2
      ⟨t.language, (root_mem_requests t options).2 ⟨hr, rfl, rfl⟩⟩
    cases hf _ hm
  | some language =>
    obtain ⟨r, hm, hl⟩ := List.exists_of_findSome?_eq_some hf
    obtain ⟨name, hreq⟩ := (mem_referrers_report t options).1 hm
    cases r with
    | production => cases hl
    | root l =>
      cases hl
      obtain ⟨hr, -, rfl⟩ := (root_mem_requests t options).1 hreq
      rw [if_pos hr]

/-- A resolution fails exactly if something is asked for in vain, and then
reports all of it. -/
theorem resolve_reports_absent (arrange : ProductionMap → ProductionMap) :
    ((∃ e, (t.resolve arrange options).value = .error e) ↔ t.absent options ≠ []) ∧
      ∀ e, (t.resolve arrange options).value = .error e → ∃ report : MissingReport,
        e = .missingProductions report ∧
        report.names = (t.absent options).eraseDups ∧
        (∀ m ∈ report.items, m.referrers.Nodup ∧ m.referrers =
          (if t.LacksRoot options ∧ m.name = t.language then [.root t.language] else []) ++
            (t.toList.filter (m.name ∈ ·.body.names)).map fun p => .production p.name) ∧
        report.missingRoot? = if t.LacksRoot options then some t.language else none := by
  refine ⟨⟨?_, ?_⟩, ?_⟩
  · rintro ⟨e, he⟩
    exact mt (requests_eq_nil_iff t options).2 (eq_of_error arrange he).1
  · intro h
    exact ⟨_, congrArg Logged.value (resolve_of_missing arrange (mt (requests_eq_nil_iff t options).1 h))⟩
  · intro e he
    refine ⟨t.report options, (eq_of_error arrange he).2, names_report t options, ?_,
      missingRoot?_report t options⟩
    intro m hm
    obtain ⟨hr, hn⟩ := referrers_of_mem_report t options hm
    rw [← askers_requests t options (not_mem_names_of_mem_absent t options hn), ← hr]
    exact ⟨hr ▸ nodup_eraseDups _, rfl⟩

/-- A table without a root, whose only production mentions the root. -/
def rootMentioned : Table where
  language := "base"
  caseSensitive := true
  productions :=
    ⟨[("a", ⟨"a", none, some "base",
      .sequence [.nonTerminal "X", .optional (.nonTerminal "base"), .nonTerminal "a", .nonTerminal "X"]⟩)],
      by decide⟩
  language_ne := by decide
  keyed := by simp
  tagged := by simp

/-- The root is reported once, with both requests for it. -/
theorem resolve_reports_absent_rootMentioned : ∃ e report, (rootMentioned.resolve id []).value = .error e ∧
    e = .missingProductions report ∧ report.names = ["base", "X"] ∧
    report.missingRoot? = some "base" ∧
    ∃ m ∈ report.items, m.name = "base" ∧ m.referrers = [.root "base", .production "a"] := by
  obtain ⟨e, he⟩ := (resolve_reports_absent rootMentioned [] id).1.2 (by decide)
  obtain ⟨report, hreport, hnames, hreferrers, hroot⟩ := (resolve_reports_absent rootMentioned [] id).2 e he
  have hbase : "base" ∈ report.names := hnames ▸ (by decide)
  obtain ⟨m, hm, hname⟩ := List.mem_map.1 hbase
  refine ⟨e, report, he, hreport, hnames, hroot, m, hm, hname, ?_⟩
  rw [(hreferrers m hm).2, hname]
  decide

end Table

end Ebnf
