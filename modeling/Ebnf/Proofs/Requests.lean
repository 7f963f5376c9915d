import Ebnf.Proofs.Ledger
import Ebnf.Resolution
/-! What a ledger reports of the requests it was given, and when it has nothing
to report. The order of the requests shows in the order of the report only, and
to repeat one changes nothing. -/

namespace Ebnf

namespace MissingReport

/-- The requests that a report tells of. -/
def pairs (r : MissingReport) : List (String × Referrer) :=
  r.items.flatMap fun m => m.referrers.map (m.name, ·)

/-- A report has each name that was asked for, once and in order of the first
request for it, with each of those who asked for it, in order of their first
request for it. It has a missing root if a root was asked for. -/
structure Lists (r : MissingReport) (requests : List (String × Referrer)) : Prop where
  names : FirstOccurrences (requests.map Prod.fst) r.names
  referrers : ∀ m ∈ r.items,
    FirstOccurrences ((requests.filter (·.1 = m.name)).map Prod.snd) m.referrers
  missingRoot? : r.missingRoot? = none ↔ ∀ name language, (name, .root language) ∉ requests

/-- Two reports of the same requests, in different orders. -/
structure Reorders (r r' : MissingReport) : Prop where
  names : r.names.Perm r'.names
  pairs : r.pairs.Perm r'.pairs

variable {requests : List (String × Referrer)}

theorem names_ofRequests : (ofRequests requests).names = (requests.map Prod.fst).eraseDups := by
  rw [names, ofRequests, List.map_map]
  exact List.map_id _

theorem referrers_of_mem_ofRequests {m : Missing} (h : m ∈ (ofRequests requests).items) :
    m.referrers = MissingLedger.askers requests m.name := by
  obtain ⟨name, -, rfl⟩ := List.mem_map.1 h
  rfl

theorem mem_referrers_ofRequests {r : Referrer} :
    r ∈ (ofRequests requests).items.flatMap Missing.referrers ↔ ∃ name, (name, r) ∈ requests := by
  rw [ofRequests, List.flatMap_map]
  simp only [List.mem_flatMap, List.mem_eraseDups, List.mem_map, Prod.exists, exists_and_right,
    exists_eq_right, MissingLedger.mem_askers]
  constructor
  · rintro ⟨name, -, h⟩
    exact ⟨name, h⟩
  · rintro ⟨name, h⟩
    exact ⟨name, ⟨r, h⟩, h⟩

theorem missingRoot?_eq_none_iff (r : MissingReport) :
    r.missingRoot? = none ↔ ∀ language, .root language ∉ r.items.flatMap Missing.referrers := by
  rw [missingRoot?, List.findSome?_eq_none_iff]
  constructor
  · intro h language hm
    cases h _ hm
  · rintro h (language | name) hm
    · exact absurd hm (h language)
    · rfl

theorem lists_ofRequests (requests : List (String × Referrer)) : (ofRequests requests).Lists requests where
  names := names_ofRequests ▸ firstOccurrences_eraseDups _
  referrers m hm := referrers_of_mem_ofRequests hm ▸ firstOccurrences_eraseDups _
  missingRoot? := by
    rw [missingRoot?_eq_none_iff, forall_comm]
    simp only [mem_referrers_ofRequests, not_exists]

theorem Lists.mem_pairs {r : MissingReport} (h : r.Lists requests) (request : String × Referrer) :
    request ∈ r.pairs ↔ request ∈ requests := by
  obtain ⟨name, referrer⟩ := request
  have hasked : ∀ m ∈ r.items, referrer ∈ m.referrers ↔ (m.name, referrer) ∈ requests := by
    intro m hm
    rw [(h.referrers m hm).mem_iff, ← List.mem_eraseDups]
    exact MissingLedger.mem_askers
  rw [pairs, List.mem_flatMap]
  constructor
  · rintro ⟨m, hm, hp⟩
    obtain ⟨referrer, hr, he⟩ := List.mem_map.1 hp
    cases he
    exact (hasked m hm).1 hr
  · intro hreq
    have hname : name ∈ r.names := (h.names.mem_iff name).2 (List.mem_map_of_mem (f := Prod.fst) hreq)
    obtain ⟨m, hm, rfl⟩ := List.mem_map.1 hname
    exact ⟨m, hm, List.mem_map_of_mem ((hasked m hm).2 hreq)⟩

theorem Lists.nodup_pairs {r : MissingReport} (h : r.Lists requests) : r.pairs.Nodup := by
  rw [pairs, List.nodup_flatMap]
  constructor
  · intro m hm
    exact (h.referrers m hm).nodup.map fun a b hab => (Prod.mk.inj hab).2
  · have hnames : r.items.Pairwise fun m m' => m.name ≠ m'.name := List.pairwise_map.1 h.names.nodup
    refine hnames.imp fun hne => ?_
    intro request hm hm'
    obtain ⟨a, -, rfl⟩ := List.mem_map.1 hm
    obtain ⟨b, -, hb⟩ := List.mem_map.1 hm'
    exact hne (Prod.mk.inj hb).1.symm

/-- Reports of requests in different orders differ in their order only. -/
theorem Lists.reorders {r r' : MissingReport} {requests' : List (String × Referrer)}
    (h : r.Lists requests) (h' : r'.Lists requests') (hp : requests.Perm requests') : r.Reorders r' where
  names := h.names.perm h'.names (hp.map _)
  pairs := by
    rw [List.perm_ext_iff_of_nodup h.nodup_pairs h'.nodup_pairs]
    intro request
    rw [h.mem_pairs, h'.mem_pairs, hp.mem_iff]

end MissingReport

namespace MissingLedger

theorem settle_of_none {l : MissingLedger} (h : l.report? = none) : l.settle = ⟨.ok (), []⟩ := by
  rw [settle, h]
  rfl

theorem settle_of_some {l : MissingLedger} {r : MissingReport} (h : l.report? = some r) :
    l.settle = ⟨.error (.missingProductions r), [⟨.error, r.text⟩]⟩ := by
  rw [settle, h]
  rfl

theorem settle_ofList (requests : List (String × Referrer)) : (ofList requests).settle =
    if requests = [] then ⟨.ok (), []⟩
    else ⟨.error (.missingProductions (.ofRequests requests)),
      [⟨.error, (MissingReport.ofRequests requests).text⟩]⟩ := by
  by_cases h : requests = []
  · rw [if_pos h, settle_of_none (by rw [report?_ofList, if_pos h])]
  · rw [if_neg h, settle_of_some (by rw [report?_ofList, if_neg h])]

theorem eq_of_settle_ofList {requests : List (String × Referrer)} {r : MissingReport}
    (h : (ofList requests).settle.value = .error (.missingProductions r)) : r = .ofRequests requests := by
  rw [settle_ofList] at h
  split at h
  · cases h
  · exact (GrammarError.missingProductions.inj (Except.error.inj h)).symm

theorem record_of_mem {l : MissingLedger} {name : String} {r : Referrer} (h : r ∈ l.referrers name) :
    l.record name r = l := if_pos h

/-- A request that was made before changes nothing. -/
theorem ofList_repeated {before : List (String × Referrer)} {request : String × Referrer}
    (h : request ∈ before) (after : List (String × Referrer)) :
    ofList (before ++ request :: after) = ofList (before ++ after) := by
  have hknown : request.2 ∈ (ofList before).referrers request.1 := by
    rw [referrers_ofList, mem_askers]
    exact h
  rw [ofList, ofList, List.foldl_append, List.foldl_append, List.foldl_cons, ← ofList, record_of_mem hknown]

/-- A ledger settles without a word if nothing was asked for, and reports all
requests otherwise: every name once and under it everyone who asked for it once,
in order of first request. A request that is repeated leaves no trace, and requests
made in another order are reported in another order. -/
theorem settle_lists_requests (requests : List (String × Referrer)) :
    (default : MissingLedger) = ∅ ∧
    ((ofList requests).isEmpty = true ↔ requests = []) ∧
    ((requests = [] ∧ (ofList requests).settle = ⟨.ok (), []⟩) ∨
      (requests ≠ [] ∧ ∃ r : MissingReport, r.Lists requests ∧
        (ofList requests).settle = ⟨.error (.missingProductions r), [⟨.error, r.text⟩]⟩)) ∧
    (∀ before request after, requests = before ++ request :: after → request ∈ before →
      ofList requests = ofList (before ++ after)) ∧
    ∀ requests', requests.Perm requests' → ∀ r r' : MissingReport,
      (ofList requests).settle.value = .error (.missingProductions r) →
      (ofList requests').settle.value = .error (.missingProductions r') → r.Reorders r' := by
  refine ⟨rfl, isEmpty_ofList requests, ?_, ?_, ?_⟩
  · rw [settle_ofList]
    by_cases h : requests = []
    · exact Or.inl ⟨h, if_pos h⟩
    · exact Or.inr ⟨h, _, MissingReport.lists_ofRequests requests, if_neg h⟩
  · rintro before request after rfl hmem
    exact ofList_repeated hmem after
  · intro requests' hp r r' hr hr'
    rw [eq_of_settle_ofList hr, eq_of_settle_ofList hr']
    exact (MissingReport.lists_ofRequests requests).reorders (MissingReport.lists_ofRequests requests') hp

/-- Requests for two names in turns, one of them made twice. -/
def interleaved : List (String × Referrer) :=
  [("x", .production "a"), ("base", .root "base"), ("x", .production "b"), ("x", .production "a"),
    ("base", .production "a")]

theorem settle_interleaved : ("x", .production "a") ∈ interleaved.take 3 ∧
    ofList interleaved = ofList (interleaved.take 3 ++ interleaved.drop 4) ∧
    interleaved.Perm interleaved.reverse ∧
    ∃ r r' : MissingReport, (ofList interleaved).settle.value = .error (.missingProductions r) ∧
      (ofList interleaved.reverse).settle.value = .error (.missingProductions r') ∧ r.Reorders r' := by
  obtain ⟨-, -, -, hrepeated, hreordered⟩ := settle_lists_requests interleaved
  have hmem : ("x", .production "a") ∈ interleaved.take 3 := by decide
  have hp : interleaved.Perm interleaved.reverse := (List.reverse_perm interleaved).symm
  have hr : (ofList interleaved).settle.value = .error (.missingProductions (.ofRequests interleaved)) :=
    congrArg Logged.value (settle_ofList interleaved)
  have hr' : (ofList interleaved.reverse).settle.value = .error (.missingProductions (.ofRequests interleaved.reverse)) :=
    congrArg Logged.value (settle_ofList interleaved.reverse)
  exact ⟨hmem, hrepeated _ _ (interleaved.drop 4) rfl hmem, hp, _, _, hr, hr', hreordered _ hp _ _ hr hr'⟩

end MissingLedger

end Ebnf
