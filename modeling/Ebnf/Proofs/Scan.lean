import Ebnf.Proofs.Ledger
import Ebnf.Proofs.Naming
import Ebnf.Proofs.Walk
/-! What one scan of a table leaves behind. The ledger is that of the requests
made in vain, in order, and what is not crossed off are the productions that
are neither roots nor mentioned by any body. -/

namespace Ebnf.Table

variable (t : Table) (options : List ResolutionOption)

/-- Whether a root is asked for and there is none. -/
def LacksRoot : Prop := t.language ∉ t.names ∧ .allowRootless ∉ options

instance : Decidable (t.LacksRoot options) := inferInstanceAs (Decidable (_ ∧ _))

/-- Whether a production is one that a grammar starts from. -/
def IsRoot (p : Production) : Prop :=
  if t.language ∈ t.names then p.name = t.language
  else .allowRootless ∈ options ∧ p.vocabulary = some t.language

instance (p : Production) : Decidable (t.IsRoot options p) := by
  unfold IsRoot
  infer_instance

/-- What a production asks for in vain. -/
def vain (p : Production) : List (String × Referrer) :=
  (p.body.names.filter (· ∉ t.names)).map fun name => (name, .production p.name)

/-- Everything asked for in vain: the root first, then what the bodies mention. -/
def requests : List (String × Referrer) :=
  (if t.LacksRoot options then [(t.language, .root t.language)] else []) ++ t.toList.flatMap t.vain

/-- The names of the productions that are not roots and that no body mentions. -/
def unused : List String :=
  (t.toList.filter fun p => ¬ t.IsRoot options p ∧ ∀ q ∈ t.toList, p.name ∉ q.body.names).map Production.name

theorem run_reach (name : String) (ids : List t.Id) :
    (t.reach name).run ids = (decide (name ∈ t.names), ids.filter fun id => (t.production id).name ≠ name) := by
  rw [reach]
  cases hid : t.productions.id? name with
  | none =>
    have hn : name ∉ t.names := id?_eq_none_iff.1 hid
    have hids : ids.filter (fun id => (t.production id).name ≠ name) = ids :=
      List.filter_eq_self.2 fun id _ => decide_eq_true fun h => hn (h ▸ name_mem_names id)
    rw [hids, decide_eq_false hn]
    rfl
  | some n =>
    have hn : name ∈ t.names := mem_names_of_id? hid
    have hids : ids.filter (fun id => (t.production id).name ≠ name) = ids.filter (·.val ≠ n) :=
      List.filter_congr fun id _ => by rw [decide_eq_decide, ne_eq, name_eq_iff_of_id? hid]
    rw [hids, decide_eq_true hn, ← isSome_value?_of_id? hid]
    rfl

theorem run_request (referrer name : String) (l : MissingLedger) (ids : List t.Id) :
    (do if ← t.reach name then return l else return l.record name (.production referrer) :
        StateM (List t.Id) MissingLedger).run ids =
      (if name ∈ t.names then l else l.record name (.production referrer),
        ids.filter fun id => (t.production id).name ≠ name) := by
  rw [StateT.run_bind, run_reach]
  by_cases h : name ∈ t.names
  · rw [decide_eq_true h, if_pos h]; rfl
  · rw [decide_eq_false h, if_neg h]; rfl

/-- A body crosses off what it mentions and takes down what it does not find. -/
theorem run_resolve (p : Production) (l : MissingLedger) (ids : List t.Id) :
    (p.resolve t.reach l).run ids =
      (l.recordAll (t.vain p), ids.filter fun id => (t.production id).name ∉ p.body.names) := by
  rw [Production.resolve, Expr.resolve, Expr.nonTerminals_eq_names, vain]
  induction p.body.names generalizing l ids with
  | nil => simp [MissingLedger.recordAll]; rfl
  | cons name rest ih =>
    have hids : (ids.filter fun id => (t.production id).name ≠ name).filter
        (fun id => (t.production id).name ∉ rest) =
        ids.filter fun id => (t.production id).name ∉ name :: rest := by
      rw [List.filter_filter]
      refine List.filter_congr fun id _ => ?_
      rw [← Bool.decide_and, decide_eq_decide, List.mem_cons, not_or, and_comm]
    rw [List.foldlM_cons, StateT.run_bind, run_request]
    refine (ih _ _).trans ?_
    rw [hids, List.filter_cons]
    by_cases h : name ∈ t.names
    · rw [if_pos h, if_neg (by simpa using h)]
    · rw [if_neg h, if_pos (by simpa using h), List.map_cons]
      rfl

/-- All the bodies of a list, one after the other. -/
theorem run_resolve_all (ps : List Production) (l : MissingLedger) (ids : List t.Id) :
    (ps.foldlM (fun l (p : Production) => p.resolve t.reach l) l).run ids =
      (l.recordAll (ps.flatMap t.vain),
        ids.filter fun id => ∀ p ∈ ps, (t.production id).name ∉ p.body.names) := by
  induction ps generalizing l ids with
  | nil => simp [MissingLedger.recordAll]; rfl
  | cons p ps ih =>
    have hids : (ids.filter fun id => (t.production id).name ∉ p.body.names).filter
        (fun id => ∀ p ∈ ps, (t.production id).name ∉ p.body.names) =
        ids.filter fun id => ∀ q ∈ p :: ps, (t.production id).name ∉ q.body.names := by
      rw [List.filter_filter]
      refine List.filter_congr fun id _ => ?_
      rw [← Bool.decide_and, decide_eq_decide, List.forall_mem_cons, and_comm]
    rw [List.foldlM_cons, StateT.run_bind, run_resolve]
    refine (ih _ _).trans ?_
    rw [hids, List.flatMap_cons, MissingLedger.recordAll, MissingLedger.recordAll,
      MissingLedger.recordAll, List.foldl_append]

theorem start_eq : t.start options =
    (.ofList (if t.LacksRoot options then [(t.language, .root t.language)] else []),
      (List.finRange t.toList.length).filter fun id => ¬ t.IsRoot options (t.production id)) := by
  unfold start
  cases hid : t.productions.id? t.language with
  | some n =>
    have hn : t.language ∈ t.names := mem_names_of_id? hid
    rw [if_neg fun h : t.LacksRoot options => h.1 hn]
    refine congrArg (Prod.mk _) (List.filter_congr fun id _ => ?_)
    rw [decide_eq_decide, IsRoot, if_pos hn, name_eq_iff_of_id? hid]
  | none =>
    have hn : t.language ∉ t.names := id?_eq_none_iff.1 hid
    by_cases ho : .allowRootless ∈ options
    · simp only [if_pos ho]
      rw [if_neg fun h : t.LacksRoot options => h.2 ho]
      refine congrArg (Prod.mk _) (List.filter_congr fun id _ => ?_)
      rw [decide_eq_decide, IsRoot, if_neg hn, and_iff_right ho]
    · simp only [if_neg ho]
      rw [if_pos (show t.LacksRoot options from ⟨hn, ho⟩)]
      refine congrArg (Prod.mk _) (List.filter_eq_self.2 fun id _ => ?_).symm
      rw [decide_eq_true_iff, IsRoot, if_neg hn]
      exact fun h => ho h.1

/-- The two results of a scan. -/
theorem scan_eq : t.scan options =
    (.ofList (t.requests options), (List.finRange t.toList.length).filter fun id =>
      ¬ t.IsRoot options (t.production id) ∧ ∀ q ∈ t.toList, (t.production id).name ∉ q.body.names) := by
  unfold scan
  rw [start_eq]
  refine (run_resolve_all t t.toList _ _).trans ?_
  rw [List.filter_filter, requests, MissingLedger.ofList, MissingLedger.ofList, List.foldl_append]
  refine congrArg (Prod.mk _) (List.filter_congr fun id _ => ?_)
  rw [← Bool.decide_and, decide_eq_decide, and_comm]

theorem map_production_filter (q : Production → Bool) :
    ((List.finRange t.toList.length).filter fun id => q (t.production id)).map t.production =
      t.toList.filter q := by
  have hget : (List.finRange t.toList.length).map t.production = t.toList := List.map_get_finRange _
  conv_rhs => rw [← hget, List.filter_map]
  rfl

theorem names_scan : (t.scan options).2.map (fun id => (t.production id).name) = t.unused options := by
  rw [scan_eq, unused, ← map_production_filter, List.map_map]
  rfl

end Ebnf.Table
