import Ebnf.Missing
import Ebnf.Proofs.Bindings
import Ebnf.Proofs.FirstOccurrences
/-! A ledger against the list of requests it was given: it has each name once,
in order of the first request for it, and under a name each referrer once, in
order of its first request for that name. -/

namespace Ebnf

/-- Who asked for a name in some requests, in order of first request. -/
def MissingLedger.askers (requests : List (String × Referrer)) (name : String) : List Referrer :=
  ((requests.filter (·.1 = name)).map Prod.snd).eraseDups

/-- The report of some requests: each name with those who asked for it. -/
def MissingReport.ofRequests (requests : List (String × Referrer)) : MissingReport :=
  ⟨(requests.map Prod.fst).eraseDups.map fun name => ⟨name, MissingLedger.askers requests name⟩⟩

namespace MissingLedger

theorem mem_askers {requests : List (String × Referrer)} {name : String} {r : Referrer} :
    r ∈ askers requests name ↔ (name, r) ∈ requests := by
  simp only [askers, List.mem_eraseDups, List.mem_map, List.mem_filter, decide_eq_true_iff, Prod.exists,
    exists_eq_right]

theorem askers_perm {as bs : List (String × Referrer)} (h : as.Perm bs) (name : String) :
    (askers as name).Perm (askers bs name) :=
  eraseDups_perm ((h.filter _).map _)

theorem askers_concat (requests : List (String × Referrer)) (name name' : String) (r : Referrer) :
    askers (requests ++ [(name, r)]) name' =
      if name = name' ∧ r ∉ askers requests name then askers requests name' ++ [r]
      else askers requests name' := by
  by_cases h : name = name'
  · subst h
    have hf : (requests ++ [(name, r)]).filter (·.1 = name) = requests.filter (·.1 = name) ++ [(name, r)] := by
      simp
    rw [askers, hf, List.map_append, List.map_singleton, eraseDups_concat]
    by_cases hr : r ∈ askers requests name
    · rw [if_pos (List.mem_eraseDups.1 hr), if_neg (fun h => h.2 hr), askers]
    · rw [if_neg (mt List.mem_eraseDups.2 hr), if_pos ⟨rfl, hr⟩, askers]
  · simp [askers, h]

theorem record_of_not_mem {l : MissingLedger} {name : String} {r : Referrer} (h : r ∉ l.referrers name) :
    l.record name r = ⟨l.requests.insert name (l.referrers name ++ [r])⟩ := if_neg h

theorem referrers_record (l : MissingLedger) (name name' : String) (r : Referrer) :
    (l.record name r).referrers name' =
      if name = name' ∧ r ∉ l.referrers name then l.referrers name' ++ [r] else l.referrers name' := by
  by_cases hr : r ∈ l.referrers name
  · simp [record, hr]
  · rw [record_of_not_mem hr, referrers, InsertionMap.get?_insert]
    by_cases h : name = name'
    · subst h
      rw [if_pos rfl, if_pos ⟨rfl, hr⟩, Option.getD_some]
    · rw [if_neg h, if_neg (fun hc => h hc.1), referrers]

theorem mem_keys_of_mem_referrers {l : MissingLedger} {name : String} {r : Referrer}
    (h : r ∈ l.referrers name) : name ∈ l.requests.keys := by
  by_contra hk
  rw [referrers, (InsertionMap.get?_eq_none_iff _ _).2 hk] at h
  exact List.not_mem_nil h

theorem keys_record (l : MissingLedger) (name : String) (r : Referrer) :
    (l.record name r).requests.keys =
      if name ∈ l.requests.keys then l.requests.keys else l.requests.keys ++ [name] := by
  rw [record]
  split
  · next h => rw [if_pos (mem_keys_of_mem_referrers h)]
  · exact InsertionMap.keys_insert _ _ _

/-- A ledger after some more requests. -/
def recordAll (l : MissingLedger) (requests : List (String × Referrer)) : MissingLedger :=
  requests.foldl (fun l r => l.record r.1 r.2) l

theorem ofList_concat (requests : List (String × Referrer)) (r : String × Referrer) :
    ofList (requests ++ [r]) = (ofList requests).record r.1 r.2 := List.foldl_concat ..

theorem keys_ofList (requests : List (String × Referrer)) :
    (ofList requests).requests.keys = (requests.map Prod.fst).eraseDups := by
  induction requests using List.reverseRecOn with
  | nil => rfl
  | append_singleton requests r ih =>
    rw [ofList_concat, keys_record, ih, List.map_append, List.map_singleton, eraseDups_concat]
    simp only [List.mem_eraseDups]

theorem referrers_ofList (requests : List (String × Referrer)) (name : String) :
    (ofList requests).referrers name = askers requests name := by
  induction requests using List.reverseRecOn generalizing name with
  | nil => rfl
  | append_singleton requests r ih =>
    rw [ofList_concat, referrers_record, ih, ih]
    exact (askers_concat requests r.1 name r.2).symm

theorem entries_eq (l : MissingLedger) :
    l.requests.entries = l.requests.keys.map fun name => (name, l.referrers name) := by
  rw [InsertionMap.keys, List.map_map]
  symm
  refine (List.map_congr_left ?_).trans (List.map_id _)
  rintro ⟨name, referrers⟩ he
  rw [← InsertionMap.get?_eq_some_iff] at he
  simp [MissingLedger.referrers, he]

theorem isEmpty_ofList (requests : List (String × Referrer)) :
    (ofList requests).isEmpty = true ↔ requests = [] := by
  rw [isEmpty, InsertionMap.isEmpty, List.isEmpty_iff, entries_eq, keys_ofList, List.map_eq_nil_iff]
  cases requests with
  | nil => simp
  | cons r rest => simp [List.eraseDups_cons]

theorem report?_ofList (requests : List (String × Referrer)) :
    (ofList requests).report? = if requests = [] then none else some (.ofRequests requests) := by
  have hitems : (ofList requests).requests.entries.map (fun e => Missing.mk e.1 e.2) =
      (MissingReport.ofRequests requests).items := by
    rw [entries_eq, keys_ofList, List.map_map]
    exact List.map_congr_left fun name _ => by simp [referrers_ofList]
  rw [report?, hitems]
  by_cases h : requests = []
  · rw [if_pos ((isEmpty_ofList requests).2 h), if_pos h]
  · rw [if_neg (mt (isEmpty_ofList requests).1 h), if_neg h]

end MissingLedger

end Ebnf
