import Ebnf.Proofs.Assembly
import Ebnf.Proofs.Diagnostics
/-! The order in which productions are defined does not decide what a resolution
comes to. What is asked for in vain and what is unused depend on that order in
their own order only. -/

namespace Ebnf

/-- Two reports of the same names, missed by the same referrers. -/
structure MissingReport.Agrees (r r' : MissingReport) : Prop where
  names : r.names.Perm r'.names
  referrers : ∀ m ∈ r.items, ∀ m' ∈ r'.items, m.name = m'.name → m.referrers.Perm m'.referrers
  missingRoot? : r.missingRoot? = r'.missingRoot?

namespace Table

/-- Two tables with the same productions, in different orders. -/
structure Reordered (t u : Table) : Prop where
  language : t.language = u.language
  caseSensitive : t.caseSensitive = u.caseSensitive
  toList : t.toList.Perm u.toList

namespace Reordered

variable {t u : Table} {options : List ResolutionOption}

theorem mem_names (h : t.Reordered u) (name : String) : name ∈ t.names ↔ name ∈ u.names :=
  (h.toList.map Production.name).mem_iff

theorem lacksRoot (h : t.Reordered u) : t.LacksRoot options ↔ u.LacksRoot options := by
  rw [LacksRoot, LacksRoot, h.mem_names, h.language]

theorem isRoot (h : t.Reordered u) (p : Production) : t.IsRoot options p ↔ u.IsRoot options p := by
  simp only [IsRoot, h.mem_names, h.language]

theorem vain (h : t.Reordered u) : t.vain = u.vain := by
  funext p
  simp only [Table.vain, h.mem_names]

theorem requests (h : t.Reordered u) : (t.requests options).Perm (u.requests options) := by
  have hroot : (if t.LacksRoot options then [(t.language, Referrer.root t.language)] else []) =
      if u.LacksRoot options then [(u.language, .root u.language)] else [] := by
    simp only [h.lacksRoot, h.language]
  rw [Table.requests, Table.requests, hroot, h.vain]
  exact (h.toList.flatMap_right _).append_left _

theorem requests_eq_nil_iff (h : t.Reordered u) : t.requests options = [] ↔ u.requests options = [] := by
  constructor
  · intro ht
    exact List.nil_perm.1 (ht ▸ h.requests)
  · intro hu
    exact List.perm_nil.1 (hu ▸ h.requests)

theorem unused (h : t.Reordered u) : (t.unused options).Perm (u.unused options) := by
  have hp : ∀ p : Production, (¬ t.IsRoot options p ∧ ∀ q ∈ t.toList, p.name ∉ q.body.names) ↔
      ¬ u.IsRoot options p ∧ ∀ q ∈ u.toList, p.name ∉ q.body.names := fun p => by
    simp only [h.isRoot, h.toList.mem_iff]
  simp only [Table.unused, hp]
  exact (h.toList.filter _).map _

theorem report (h : t.Reordered u) : (t.report options).Agrees (u.report options) where
  names := by
    rw [names_report, names_report, ← map_fst_requests, ← map_fst_requests]
    exact eraseDups_perm (h.requests.map _)
  referrers m hm m' hm' hname := by
    rw [(referrers_of_mem_report t options hm).1, (referrers_of_mem_report u options hm').1, hname]
    exact MissingLedger.askers_perm h.requests _
  missingRoot? := by
    rw [missingRoot?_report, missingRoot?_report]
    simp only [h.lacksRoot, h.language]

theorem productionMap (h : t.Reordered u) : t.productionMap.entries.Perm u.productionMap.entries := by
  rw [entries_productionMap, entries_productionMap]
  exact h.toList.map _

end Reordered

/-- `t` is what comes of adding `ps`, one after the other, to an empty table. -/
def Assembled (language : String) (caseSensitive : Bool) (ps : List Production) (t : Table) : Prop :=
  ∃ t₀, new language caseSensitive = .ok t₀ ∧ ((Assembly.addAll ps).on t₀).value = (t, none)

theorem exists_assembled {language : String} (hl : language ≠ "") (caseSensitive : Bool)
    {ps : List Production} (hn : (ps.map Production.name).Nodup) :
    ∃ t, Assembled language caseSensitive ps t ∧ t.language = language ∧
      t.caseSensitive = caseSensitive ∧ t.toList = ps.map (·.tagged language) := by
  obtain ⟨t₀, hnew, hlang, hcase, hnil⟩ : ∃ t₀, new language caseSensitive = .ok t₀ ∧
      t₀.language = language ∧ t₀.caseSensitive = caseSensitive ∧ t₀.toList = [] :=
    ⟨_, dif_neg hl, rfl, rfl, rfl⟩
  obtain ⟨t, ht, hext⟩ := Assembly.run_addAll ps t₀ (by simpa [names, hnil] using hn)
  refine ⟨t, ⟨t₀, hnew, ?_⟩, hext.language.trans hlang, hext.caseSensitive.trans hcase, ?_⟩
  · rw [Assembly.on, ht]
    rfl
  · rw [hext.toList, hnil, hlang, List.nil_append]

theorem Assembled.unique {language : String} {caseSensitive : Bool} {ps : List Production} {t u : Table}
    (ht : Assembled language caseSensitive ps t) (hu : Assembled language caseSensitive ps u) : t = u := by
  obtain ⟨t₀, ht₀, ht⟩ := ht
  obtain ⟨u₀, hu₀, hu⟩ := hu
  obtain rfl : t₀ = u₀ := Except.ok.inj (ht₀.symm.trans hu₀)
  exact congrArg Prod.fst (ht.symm.trans hu)

/-- What a resolution that succeeds logs when `unused` are the unused productions. -/
def diagnostics (language : String) (unused : List String) (options : List ResolutionOption) :
    List Log.Entry :=
  (noteUnused unused options).entries ++ [⟨.info, "Resolved grammar '" ++ language ++ "'"⟩]

/-- Productions added in two orders make tables that resolve alike. -/
theorem resolve_reordered {language : String} (hl : language ≠ "") (caseSensitive : Bool)
    (options : List ResolutionOption) {ps qs : List Production} (hn : (ps.map Production.name).Nodup)
    (hp : ps.Perm qs) :
    ∃ t u, Assembled language caseSensitive ps t ∧ Assembled language caseSensitive qs u ∧
      (∀ arrange, (t.resolve arrange options).value.isOk = (u.resolve arrange options).value.isOk) ∧
      (∀ g h, (t.resolve id options).value = .ok g → (u.resolve id options).value = .ok h →
        (g == h) = true ∧ (t.idle.map Production.name).Perm (u.idle.map Production.name) ∧
          (t.resolve id options).entries = diagnostics language (t.idle.map Production.name) options ∧
          (u.resolve id options).entries = diagnostics language (u.idle.map Production.name) options) ∧
      (∀ g h, (t.resolve InsertionMap.sortKeys options).value = .ok g →
        (u.resolve InsertionMap.sortKeys options).value = .ok h →
        ∀ limit, g.write.rendering limit = h.write.rendering limit) ∧
      (∀ arrange e e', (t.resolve arrange options).value = .error e →
        (u.resolve arrange options).value = .error e' → ∃ r r' : MissingReport,
          e = .missingProductions r ∧ e' = .missingProductions r' ∧ r.Agrees r') := by
  obtain ⟨t, htbuilt, htl, htc, htps⟩ := exists_assembled hl caseSensitive hn
  obtain ⟨u, hubuilt, hul, huc, hups⟩ :=
    exists_assembled hl caseSensitive ((hp.map Production.name).nodup_iff.1 hn)
  have hr : t.Reordered u := ⟨htl.trans hul.symm, htc.trans huc.symm, by
    rw [htps, hups]; exact hp.map _⟩
  refine ⟨t, u, htbuilt, hubuilt, ?_, ?_, ?_, ?_⟩
  · intro arrange
    by_cases ht : t.requests options = []
    · rw [resolve_of_complete arrange ht, resolve_of_complete arrange (hr.requests_eq_nil_iff.1 ht)]
      rfl
    · rw [resolve_of_missing arrange ht,
        resolve_of_missing arrange (mt hr.requests_eq_nil_iff.2 ht)]
      rfl
  · intro g h hg hh
    have htroot := (requests_eq_nil_iff_closed.1 (requests_of_ok id hg)).1
    have huroot := (requests_eq_nil_iff_closed.1 (requests_of_ok id hh)).1
    rw [← unused_eq htroot, ← unused_eq huroot]
    refine ⟨?_, hr.unused, ?_, ?_⟩
    · rw [eq_of_ok id hg, eq_of_ok id hh]
      change Grammar.same _ _ = true
      simp only [Grammar.same, hr.language, hr.caseSensitive, beq_self_eq_true, Bool.true_and]
      exact InsertionMap.same_of_perm hr.productionMap
    · rw [resolve_of_complete id (requests_of_ok id hg), diagnostics, htl]
    · rw [resolve_of_complete id (requests_of_ok id hh), diagnostics, hul]
  · intro g h hg hh limit
    rw [eq_of_ok _ hg, eq_of_ok _ hh, InsertionMap.sortKeys_eq_of_perm hr.productionMap]
    rfl
  · intro arrange e e' he he'
    exact ⟨_, _, (eq_of_error arrange he).2, (eq_of_error arrange he').2, hr.report⟩

/-- Three productions that ask for nothing in vain. The last one is unused. -/
def lastUnused : List Production :=
  [⟨"lang", none, none, .sequence [.nonTerminal "b", .literal "x"]⟩,
    ⟨"b", some "back", some "other", .optional (.nonTerminal "lang")⟩, ⟨"spare", none, none, .epsilon⟩]

theorem resolve_reordered_lastUnused : ∃ t u g h, Assembled "lang" true lastUnused t ∧
    Assembled "lang" true lastUnused.reverse u ∧ (t.resolve id []).value = .ok g ∧
    (u.resolve id []).value = .ok h ∧ g.toList ≠ h.toList ∧ (g == h) = true := by
  obtain ⟨t, u, ht, hu, hok, hid, -, -⟩ := resolve_reordered (show "lang" ≠ "" by decide) true []
    (show (lastUnused.map Production.name).Nodup by decide) lastUnused.reverse_perm.symm
  obtain ⟨t', ht', htl, -, htps⟩ := exists_assembled (show "lang" ≠ "" by decide) true
    (show (lastUnused.map Production.name).Nodup by decide)
  obtain ⟨u', hu', hul, -, hups⟩ := exists_assembled (show "lang" ≠ "" by decide) true
    (show (lastUnused.reverse.map Production.name).Nodup by decide)
  obtain rfl := ht.unique ht'
  obtain rfl := hu.unique hu'
  have htr : t.requests [] = [] := by
    rw [requests_eq_nil_iff_closed]
    unfold LacksRoot names
    rw [htps, htl]
    decide
  have hur : u.requests [] = [] := by
    rw [requests_eq_nil_iff_closed]
    unfold LacksRoot names
    rw [hups, hul]
    decide
  have hg := congrArg Logged.value (resolve_of_complete id htr)
  have hh := congrArg Logged.value (resolve_of_complete id hur)
  refine ⟨t, u, _, _, ht, hu, hg, hh, ?_, (hid _ _ hg hh).1⟩
  change t.productionMap.values ≠ u.productionMap.values
  rw [values_productionMap, values_productionMap, htps, hups]
  decide

end Table

end Ebnf
