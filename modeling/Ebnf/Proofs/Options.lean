import Ebnf.Proofs.Diagnostics
import Ebnf.Proofs.MissingNames
/-! What the options of a resolution can do and what they cannot. Leave to skip
unused productions turns a warning into a remark. Leave to go without a root
takes the root out of the report, and does nothing where there is a root. -/

namespace Ebnf

theorem filter_eraseDups {α : Type} [DecidableEq α] (p : α → Bool) (as : List α) :
    as.eraseDups.filter p = (as.filter p).eraseDups := by
  induction as using List.reverseRecOn with
  | nil => rfl
  | append_singleton as a ih =>
    rw [eraseDups_concat, List.filter_append, List.filter_singleton]
    by_cases ha : a ∈ as
    · rw [if_pos ha, ih]
      by_cases hp : p a
      · rw [hp, cond_true, eraseDups_concat, if_pos (List.mem_filter.2 ⟨ha, hp⟩)]
      · rw [Bool.eq_false_of_not_eq_true hp, cond_false, List.append_nil]
    · rw [if_neg ha, List.filter_append, List.filter_singleton, ih]
      by_cases hp : p a
      · rw [hp, cond_true, eraseDups_concat, if_neg (fun h => ha (List.mem_filter.1 h).1)]
      · rw [Bool.eq_false_of_not_eq_true hp, cond_false, List.append_nil, List.append_nil]

/-- A missing name, the root left out among those who asked for it. -/
def Missing.withoutRoot (m : Missing) : Missing :=
  { m with referrers := m.referrers.filter (·.language? = none) }

/-- The names that are missing even if the root does not ask for one. -/
def MissingReport.withoutRoot (r : MissingReport) : List Missing :=
  (r.items.map Missing.withoutRoot).filter (·.referrers ≠ [])

/-- What is logged with and without leave to skip unused productions: the same if
there is no warning, and otherwise a remark on the same names in its place. -/
inductive Hushed : List Log.Entry → List Log.Entry → Prop
  | same {es : List Log.Entry} (h : ∀ e ∈ es, e.level ≠ .warn) : Hushed es es
  | remark {unused : List String} {es : List Log.Entry} (h : ∀ e ∈ es, e.level ≠ .warn) :
    Hushed (⟨.warn, "Unused productions: " ++ ", ".intercalate unused⟩ :: es)
      (⟨.debug, "Keeping unused productions: " ++ ", ".intercalate unused⟩ :: es)

namespace MissingLedger

/-- What a report says of a name. -/
def item (requests : List (String × Referrer)) (name : String) : Missing :=
  ⟨name, askers requests name⟩

variable {l : String} {requests : List (String × Referrer)}

theorem askers_eq_nil_iff {name : String} : askers requests name = [] ↔ name ∉ requests.map Prod.fst := by
  simp only [List.eq_nil_iff_forall_not_mem, mem_askers, List.mem_map, Prod.exists, exists_and_right,
    exists_eq_right, not_exists]

/-- The root is the only one whose request is left out. -/
theorem withoutRoot_item (h : ∀ r ∈ requests, r.2.language? = none) (name : String) :
    (item ((l, .root l) :: requests) name).withoutRoot = item requests name := by
  have hapart : ∀ r, (name, r) ∈ [(l, Referrer.root l)] → (name, r) ∉ requests := by
    intro r hr hmem
    obtain ⟨-, rfl⟩ := Prod.mk.inj (List.mem_singleton.1 hr)
    cases h _ hmem
  have hroot : (askers [(l, Referrer.root l)] name).filter (·.language? = none) = [] := by
    refine List.filter_eq_nil_iff.2 fun r hr => ?_
    obtain ⟨-, rfl⟩ := Prod.mk.inj (List.mem_singleton.1 (mem_askers.1 hr))
    simp [Referrer.language?]
  have hrest : (askers requests name).filter (·.language? = none) = askers requests name :=
    List.filter_eq_self.2 fun r hr => decide_eq_true (h _ (mem_askers.1 hr))
  rw [item, Missing.withoutRoot, ← List.singleton_append, askers_append hapart, List.filter_append, hroot,
    hrest, List.nil_append, item]

/-- A report without its root has the items of the report that the other requests make. -/
theorem withoutRoot_items (h : ∀ r ∈ requests, r.2.language? = none) :
    MissingReport.withoutRoot ⟨(l :: requests.map Prod.fst).eraseDups.map (item ((l, .root l) :: requests))⟩ =
      ((l :: requests.map Prod.fst).eraseDups.filter (· ∈ requests.map Prod.fst)).map (item requests) := by
  rw [MissingReport.withoutRoot, List.map_map, List.filter_map]
  have hitem : Missing.withoutRoot ∘ item ((l, .root l) :: requests) = item requests :=
    funext (withoutRoot_item h)
  rw [hitem]
  refine congrArg _ (List.filter_congr fun name _ => ?_)
  rw [Function.comp_apply, decide_eq_decide, item, ne_eq, askers_eq_nil_iff, not_not]

end MissingLedger

/-- Items that are those of a report without its root, in the same order except
for the item of the language. -/
structure MissingReport.LeavesOut (r r' : MissingReport) (language : String) : Prop where
  perm : r'.items.Perm r.withoutRoot
  others : r'.items.filter (·.name ≠ language) = r.withoutRoot.filter (·.name ≠ language)

theorem MissingReport.LeavesOut.eq_nil_iff {r r' : MissingReport} {language : String}
    (h : r.LeavesOut r' language) : r.withoutRoot = [] ↔ r'.items = [] := by
  constructor
  · intro hnil
    exact List.perm_nil.1 (hnil ▸ h.perm)
  · intro hnil
    exact List.nil_perm.1 (hnil ▸ h.perm)

theorem MissingLedger.leavesOut {l : String} {requests : List (String × Referrer)}
    (h : ∀ r ∈ requests, r.2.language? = none) :
    MissingReport.LeavesOut ⟨(l :: requests.map Prod.fst).eraseDups.map (item ((l, .root l) :: requests))⟩
      ⟨(requests.map Prod.fst).eraseDups.map (item requests)⟩ l where
  perm := by
    rw [withoutRoot_items h]
    refine List.Perm.map _ ?_
    rw [List.perm_ext_iff_of_nodup (nodup_eraseDups _) ((nodup_eraseDups _).filter _)]
    intro name
    simp only [List.mem_eraseDups, List.mem_filter, List.mem_cons, decide_eq_true_iff]
    exact ⟨fun hn => ⟨.inr hn, hn⟩, fun hn => hn.2⟩
  others := by
    rw [withoutRoot_items h, List.filter_map, List.filter_map, filter_eraseDups, filter_eraseDups,
      filter_eraseDups, List.filter_filter, List.filter_cons_of_neg (by simp [item])]
    refine congrArg (fun names => (List.eraseDups names).map (item requests)) ?_
    exact List.filter_congr fun name hn => by rw [decide_eq_true hn, Bool.and_true]

namespace Table

variable (t : Table) (arrange : ProductionMap → ProductionMap) {options options' : List ResolutionOption}

theorem resolve_eq (options : List ResolutionOption) : t.resolve arrange options =
    if t.requests options = [] then
      ⟨.ok ⟨t.language, t.caseSensitive, arrange t.productionMap⟩,
        t.idleNote options ++ [⟨.info, "Resolved grammar '" ++ t.language ++ "'"⟩]⟩
    else
      ⟨.error (.missingProductions (t.report options)), [⟨.error, (t.report options).text⟩]⟩ := by
  split
  · next h =>
    rw [← entries_of_complete arrange h, resolve_of_complete arrange h]
  · next h => exact resolve_of_missing arrange h

theorem report_congr (h : t.requests options = t.requests options') : t.report options = t.report options' := by
  rw [report, report, h]

/-- Two lists of options come to the same if they make the same requests and agree
on unused productions. -/
theorem resolve_congr (hreq : t.requests options = t.requests options')
    (hskip : .skipUnused ∈ options ↔ .skipUnused ∈ options') :
    t.resolve arrange options = t.resolve arrange options' := by
  simp only [resolve_eq, idleNote, hreq, hskip, t.report_congr hreq]

theorem requests_congr (h : t.LacksRoot options ↔ t.LacksRoot options') :
    t.requests options = t.requests options' := by
  simp only [requests, h]

theorem lacksRoot_congr (h : .allowRootless ∈ options ↔ .allowRootless ∈ options') :
    t.LacksRoot options ↔ t.LacksRoot options' := by
  rw [LacksRoot, LacksRoot, h]

theorem lacksRoot_skipUnused (options : List ResolutionOption) :
    t.LacksRoot (.skipUnused :: options) ↔ t.LacksRoot options :=
  t.lacksRoot_congr (by simp)

/-- What is asked for if no root is. -/
theorem requests_allowRootless (options : List ResolutionOption) :
    t.requests (.allowRootless :: options) = t.toList.flatMap t.vain := by
  rw [requests, if_neg fun h => h.2 (List.mem_cons_self ..), List.nil_append]

theorem language?_of_mem_vain : ∀ r ∈ t.toList.flatMap t.vain, r.2.language? = none := by
  intro r hr
  obtain ⟨p, -, hr⟩ := List.mem_flatMap.1 hr
  obtain ⟨name, -, rfl⟩ := List.mem_map.1 hr
  rfl

theorem items_report_eq_nil_iff (options : List ResolutionOption) :
    (t.report options).items = [] ↔ t.requests options = [] := by
  rw [report, List.map_eq_nil_iff]
  cases t.requests options <;> simp [List.eraseDups_cons]

/-- The report of a table without a root, with the root and without it. -/
theorem leavesOut_report (h : t.LacksRoot options) :
    (t.report options).LeavesOut (t.report (.allowRootless :: options)) t.language := by
  have hroot : t.requests options = (t.language, .root t.language) :: t.toList.flatMap t.vain := by
    rw [requests, if_pos h, List.singleton_append]
  rw [report, report, hroot, requests_allowRootless]
  exact MissingLedger.leavesOut t.language?_of_mem_vain

theorem hushed_entries (t : Table) (options : List ResolutionOption) :
    Hushed (t.resolve arrange options).entries (t.resolve arrange (.skipUnused :: options)).entries := by
  rw [resolve_eq, resolve_eq, t.requests_congr (t.lacksRoot_skipUnused options), idleNote, idleNote,
    if_pos (List.mem_cons_self ..)]
  split
  · split
    · exact .same (by simp)
    · split
      · exact .same (by simp)
      · exact .remark (by simp)
  · rw [t.report_congr (t.requests_congr (t.lacksRoot_skipUnused options))]
    exact .same (by simp)

/-- Only which options there are matters. Leave to skip unused productions changes
the warning only. Leave to go without a root changes nothing where there is one; where
there is none nothing goes through without that leave, and with it the report has the
items that are left when the root asks for nothing. -/
theorem resolve_options (options : List ResolutionOption) :
    (∀ options', (∀ o, o ∈ options' ↔ o ∈ options) → t.resolve arrange options' = t.resolve arrange options) ∧
      ((t.resolve arrange (.skipUnused :: options)).value = (t.resolve arrange options).value ∧
        Hushed (t.resolve arrange options).entries (t.resolve arrange (.skipUnused :: options)).entries) ∧
      (t.language ∈ t.names → t.resolve arrange (.allowRootless :: options) = t.resolve arrange options) ∧
      (t.language ∉ t.names → .allowRootless ∉ options →
        ∃ r, (t.resolve arrange options).value = .error (.missingProductions r) ∧
          match (t.resolve arrange (.allowRootless :: options)).value with
          | .ok _ => r.withoutRoot = []
          | .error e => r.withoutRoot ≠ [] ∧ ∃ r', e = .missingProductions r' ∧ r.LeavesOut r' t.language) := by
  refine ⟨fun options' h => ?_, ⟨?_, t.hushed_entries arrange options⟩, fun hl => ?_, fun hl ho => ?_⟩
  · exact t.resolve_congr arrange (t.requests_congr (t.lacksRoot_congr (h _))) (h _)
  · have hreq := t.requests_congr (t.lacksRoot_skipUnused options)
    rw [resolve_eq, resolve_eq, hreq, t.report_congr hreq]
    split <;> rfl
  · refine t.resolve_congr arrange (t.requests_congr ?_) (by simp)
    exact iff_of_false (fun h => h.1 hl) fun h => h.1 hl
  · have hlacks : t.LacksRoot options := ⟨hl, ho⟩
    have hleaves := t.leavesOut_report hlacks
    have hreq : t.requests options ≠ [] := by
      rw [requests, if_pos hlacks]
      exact List.cons_ne_nil _ _
    refine ⟨t.report options, by rw [resolve_of_missing arrange hreq], ?_⟩
    have hnil := hleaves.eq_nil_iff.trans (t.items_report_eq_nil_iff (.allowRootless :: options))
    by_cases hrest : t.requests (.allowRootless :: options) = []
    · rw [resolve_of_complete arrange hrest]
      exact hnil.2 hrest
    · rw [resolve_of_missing arrange hrest]
      exact ⟨mt hnil.1 hrest, _, rfl, hleaves⟩

/-- What is missing from `rootMentioned` without its root: the language moves behind the
name that is mentioned before it. -/
theorem resolve_options_rootMentioned : ∃ r r', (rootMentioned.resolve id []).value = .error (.missingProductions r) ∧
    (rootMentioned.resolve id [.allowRootless]).value = .error (.missingProductions r') ∧
    r.names = ["base", "X"] ∧ r'.names = ["X", "base"] ∧ r.LeavesOut r' "base" ∧
    selfMention.resolve id [.allowRootless] = selfMention.resolve id [] := by
  obtain ⟨-, -, -, hrootless⟩ := resolve_options rootMentioned id []
  obtain ⟨-, -, hroot, -⟩ := resolve_options selfMention id []
  obtain ⟨r, hr, hrest⟩ := hrootless (by decide) List.not_mem_nil
  have hreq : rootMentioned.requests [.allowRootless] ≠ [] := by decide
  rw [resolve_of_missing id hreq] at hrest
  obtain ⟨-, r', he, hleaves⟩ := hrest
  obtain rfl := GrammarError.missingProductions.inj he
  rw [resolve_of_missing id (show rootMentioned.requests [] ≠ [] by decide)] at hr
  obtain rfl := GrammarError.missingProductions.inj (Except.error.inj hr)
  refine ⟨_, _, by rw [resolve_of_missing id (show rootMentioned.requests [] ≠ [] by decide)],
    by rw [resolve_of_missing id hreq], by decide, by decide, hleaves, hroot (by decide)⟩

end Table

end Ebnf
