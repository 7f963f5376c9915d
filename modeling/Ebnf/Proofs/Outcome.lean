import Ebnf.Proofs.Requests
import Ebnf.Proofs.Scan
/-! The outcome of a resolution, from what was asked for in vain: if nothing
was, a grammar and a note on the unused productions, and otherwise the report
of those requests. -/

namespace Ebnf.Table

variable (t : Table) (arrange : ProductionMap → ProductionMap) (options : List ResolutionOption)

/-- The report of everything asked for in vain. -/
def report : MissingReport :=
  ⟨((t.requests options).map Prod.fst).eraseDups.map fun name =>
    ⟨name, MissingLedger.askers (t.requests options) name⟩⟩

theorem report?_scan : (t.scan options).1.report? =
    if t.requests options = [] then none else some (t.report options) := by
  rw [scan_eq, MissingLedger.report?_ofList]
  rfl

variable {t options}

theorem resolve_of_complete (h : t.requests options = []) :
    t.resolve arrange options =
      ⟨.ok ⟨t.language, t.caseSensitive, arrange t.productionMap⟩,
        (noteUnused (t.unused options) options).entries ++
          [⟨.info, "Resolved grammar '" ++ t.language ++ "'"⟩]⟩ := by
  have hr : (t.scan options).1.report? = none := by rw [report?_scan, if_pos h]
  have hs := MissingLedger.settle_of_none hr
  unfold resolve
  rw [show t.scan options = ((t.scan options).1, (t.scan options).2) from rfl]
  simp only [hs, names_scan]
  rfl

theorem resolve_of_missing (h : t.requests options ≠ []) :
    t.resolve arrange options =
      ⟨.error (.missingProductions (t.report options)), [⟨.error, (t.report options).text⟩]⟩ := by
  have hr : (t.scan options).1.report? = some (t.report options) := by rw [report?_scan, if_neg h]
  have hs := MissingLedger.settle_of_some hr
  unfold resolve
  rw [show t.scan options = ((t.scan options).1, (t.scan options).2) from rfl]
  simp only [hs]
  rfl

theorem requests_of_ok {g : Grammar} (h : (t.resolve arrange options).value = .ok g) :
    t.requests options = [] := by
  by_contra hne
  rw [resolve_of_missing arrange hne] at h
  cases h

theorem eq_of_ok {g : Grammar} (h : (t.resolve arrange options).value = .ok g) :
    g = ⟨t.language, t.caseSensitive, arrange t.productionMap⟩ := by
  rw [resolve_of_complete arrange (requests_of_ok arrange h)] at h
  exact (Except.ok.inj h).symm

theorem eq_of_error {e : GrammarError} (h : (t.resolve arrange options).value = .error e) :
    t.requests options ≠ [] ∧ e = .missingProductions (t.report options) := by
  by_cases hr : t.requests options = []
  · rw [resolve_of_complete arrange hr] at h
    cases h
  · rw [resolve_of_missing arrange hr] at h
    exact ⟨hr, (Except.error.inj h).symm⟩

end Ebnf.Table
