import Ebnf.Proofs.Assembly
/-! A table against a list. Whatever it is asked to take over, and whatever of
that fails, a table holds what was accepted, in the order of the offers, and
nothing that it holds is changed later on. -/

namespace Ebnf

/-- Of productions offered one after the other when some names are taken, those
accepted: all up to the first whose name is taken by then. -/
def accepted (taken : List String) : List Production → List Production
  | [] => []
  | p :: ps => if p.name ∈ taken then [] else p :: accepted (taken ++ [p.name]) ps

/-- The productions offered that are not accepted. -/
def refused (taken : List String) (ps : List Production) : List Production :=
  ps.drop (accepted taken ps).length

section Offers

variable {taken : List String} {p : Production} {ps : List Production}

theorem accepted_cons_of_not_mem (h : p.name ∉ taken) :
    accepted taken (p :: ps) = p :: accepted (taken ++ [p.name]) ps := if_neg h

theorem accepted_cons_of_mem (h : p.name ∈ taken) : accepted taken (p :: ps) = [] := if_pos h

theorem refused_cons_of_not_mem (h : p.name ∉ taken) :
    refused taken (p :: ps) = refused (taken ++ [p.name]) ps := by
  rw [refused, accepted_cons_of_not_mem h]
  rfl

theorem refused_cons_of_mem (h : p.name ∈ taken) : refused taken (p :: ps) = p :: ps := by
  rw [refused, accepted_cons_of_mem h]
  rfl

theorem accepted_append_refused (taken : List String) (ps : List Production) :
    accepted taken ps ++ refused taken ps = ps := by
  induction ps generalizing taken with
  | nil => rfl
  | cons p ps ih =>
    by_cases h : p.name ∈ taken
    · rw [accepted_cons_of_mem h, refused_cons_of_mem h, List.nil_append]
    · rw [accepted_cons_of_not_mem h, refused_cons_of_not_mem h, List.cons_append, ih]

/-- Only the names of the productions decide which are accepted. -/
theorem accepted_map {f : Production → Production} (hf : ∀ p, (f p).name = p.name) :
    accepted taken (ps.map f) = (accepted taken ps).map f := by
  induction ps generalizing taken with
  | nil => rfl
  | cons p ps ih =>
    rw [List.map_cons]
    by_cases h : p.name ∈ taken
    · rw [accepted_cons_of_mem h, accepted_cons_of_mem (hf p ▸ h), List.map_nil]
    · rw [accepted_cons_of_not_mem h, accepted_cons_of_not_mem (hf p ▸ h), hf, ih, List.map_cons]

/-- The first production refused has a name that was taken from the start or that
an accepted one has. -/
theorem name_mem_of_head?_refused (h : (refused taken ps).head? = some p) :
    p.name ∈ taken ++ (accepted taken ps).map Production.name := by
  induction ps generalizing taken with
  | nil => cases h
  | cons q ps ih =>
    by_cases hq : q.name ∈ taken
    · rw [refused_cons_of_mem hq, List.head?_cons, Option.some_inj] at h
      rw [accepted_cons_of_mem hq, ← h]
      exact List.mem_append_left _ hq
    · rw [refused_cons_of_not_mem hq] at h
      rw [accepted_cons_of_not_mem hq, List.map_cons, List.append_cons]
      exact ih h

/-- All are accepted exactly if no name is taken twice. -/
theorem refused_eq_nil_iff (h : taken.Nodup) :
    refused taken ps = [] ↔ (taken ++ ps.map Production.name).Nodup := by
  induction ps generalizing taken with
  | nil => simpa [refused] using h
  | cons p ps ih =>
    by_cases hp : p.name ∈ taken
    · rw [refused_cons_of_mem hp]
      refine iff_of_false (List.cons_ne_nil _ _) fun hn => ?_
      exact List.disjoint_of_nodup_append hn hp (List.mem_cons_self ..)
    · rw [refused_cons_of_not_mem hp, ih (List.concat_eq_append ▸ h.concat hp), List.map_cons,
        ← List.append_cons]

end Offers

/-- Something that a table is asked to take over. -/
inductive Call
  | add (p : Production)
  | merge (v : Vocabulary)

namespace Call

def work : Call → Assembly Unit
  | add p => Assembly.add p
  | merge v => Assembly.merge v

/-- The productions offered, in order, if they can be had. -/
def offer : Call → Except GrammarError (List Production)
  | add p => .ok [p]
  | merge v => v.productions

end Call

/-- What a list of productions comes to when something is offered to it. -/
def keep (language : String) (kept : List Production) (c : Call) : List Production :=
  kept ++ (accepted (kept.map Production.name) (c.offer.toOption.getD [])).map (·.tagged language)

/-- The productions accepted of all that was offered, in order. -/
def reference (language : String) (calls : List Call) : List Production :=
  calls.foldl (keep language) []

namespace Assembly

theorem on_addAll (ps : List Production) (t : Table) :
    ∃ u, ((addAll ps).on t).value =
        (u, (refused t.names ps).head?.map fun p => .duplicateDefinition p.name) ∧
      t.Extends u (accepted t.names ps) := by
  induction ps generalizing t with
  | nil => exact ⟨t, rfl, .refl t⟩
  | cons p ps ih =>
    rw [addAll_cons, on_bind]
    by_cases h : p.name ∈ t.names
    · rw [on_add_of_mem h, accepted_cons_of_mem h, refused_cons_of_mem h]
      exact ⟨t, rfl, .refl t⟩
    · obtain ⟨u, hu, hext⟩ := on_add_of_not_mem h
      obtain ⟨v, hv, hext'⟩ := ih u
      rw [hext.names, List.map_singleton] at hv hext'
      rw [hu, accepted_cons_of_not_mem h, refused_cons_of_not_mem h]
      exact ⟨v, hv, hext.trans hext'⟩

end Assembly

namespace Table

/-- The table after a call, and the error of the call. -/
def call (t : Table) (c : Call) : Table × Option GrammarError := (c.work.on t).value

/-- The table after some calls, whether or not they fail. -/
def after (t : Table) (calls : List Call) : Table := calls.foldl (fun t c => (t.call c).1) t

theorem call_merge_of_error {t : Table} {v : Vocabulary} {e : GrammarError} (h : v.productions = .error e) :
    t.call (.merge v) = (t, some e) := congrArg Logged.value (Assembly.on_merge_of_error h t)

theorem call_merge_of_ok {t : Table} {v : Vocabulary} {ps : List Production} (h : v.productions = .ok ps) :
    t.call (.merge v) = ((Assembly.addAll ps).on t).value := by
  rw [call, Call.work, Assembly.on_merge_of_ok h]

theorem call_add_of_mem {t : Table} {p : Production} (h : p.name ∈ t.names) :
    t.call (.add p) = (t, some (.duplicateDefinition p.name)) :=
  congrArg Logged.value (Assembly.on_add_of_mem h)

theorem call_add_of_not_mem {t : Table} {p : Production} (h : p.name ∉ t.names) :
    ∃ u, t.call (.add p) = (u, none) ∧ t.Extends u [p] := by
  obtain ⟨u, hu, hext⟩ := Assembly.on_add_of_not_mem h
  exact ⟨u, congrArg Logged.value hu, hext⟩

/-- One call adds what is accepted of its offer. -/
theorem extends_call (t : Table) (c : Call) :
    t.Extends (t.call c).1 (accepted t.names (c.offer.toOption.getD [])) := by
  cases c with
  | add p =>
    change t.Extends _ (accepted t.names [p])
    by_cases h : p.name ∈ t.names
    · rw [call_add_of_mem h, accepted_cons_of_mem h]
      exact .refl t
    · obtain ⟨u, hu, hext⟩ := call_add_of_not_mem h
      rw [hu, accepted_cons_of_not_mem h]
      exact hext
  | merge v =>
    change t.Extends _ (accepted t.names (v.productions.toOption.getD []))
    cases hv : v.productions with
    | error e =>
      rw [call_merge_of_error hv]
      exact .refl t
    | ok ps =>
      obtain ⟨u, hu, hext⟩ := Assembly.on_addAll ps t
      rw [call_merge_of_ok hv, hu]
      exact hext

/-- A table in which some productions were put, and nothing else. -/
structure Holds (t : Table) (language : String) (caseSensitive : Bool) (ps : List Production) : Prop where
  language : t.language = language
  caseSensitive : t.caseSensitive = caseSensitive
  toList : t.toList = ps

theorem new_eq_error_iff {language : String} {caseSensitive : Bool} {e : GrammarError} :
    new language caseSensitive = .error e ↔ language = "" ∧ e = .emptyLanguage := by
  by_cases hl : language = ""
  · rw [new, dif_pos hl, Except.error.injEq, and_iff_right hl, eq_comm]
  · simp [new, hl]

theorem holds_of_new {t : Table} {language : String} {caseSensitive : Bool}
    (h : new language caseSensitive = .ok t) : t.Holds language caseSensitive [] := by
  by_cases hl : language = ""
  · rw [new, dif_pos hl] at h
    cases h
  · rw [new, dif_neg hl, Except.ok.injEq] at h
    subst h
    exact ⟨rfl, rfl, rfl⟩

theorem Holds.call {t : Table} {language : String} {caseSensitive : Bool} {ps : List Production}
    (h : t.Holds language caseSensitive ps) (c : Call) :
    (t.call c).1.Holds language caseSensitive (keep language ps c) where
  language := (t.extends_call c).language.trans h.language
  caseSensitive := (t.extends_call c).caseSensitive.trans h.caseSensitive
  toList := by
    rw [(t.extends_call c).toList, names, h.toList, h.language]
    rfl

theorem Holds.after {t : Table} {language : String} {caseSensitive : Bool} {ps : List Production}
    (h : t.Holds language caseSensitive ps) (calls : List Call) :
    (t.after calls).Holds language caseSensitive (calls.foldl (keep language) ps) := by
  induction calls generalizing t ps with
  | nil => exact h
  | cons c calls ih => exact ih (h.call c)

theorem prefix_after (t : Table) (calls : List Call) : t.toList <+: (t.after calls).toList := by
  induction calls generalizing t with
  | nil => exact List.prefix_refl _
  | cons c calls ih =>
    refine List.IsPrefix.trans ?_ (ih _)
    rw [(t.extends_call c).toList]
    exact List.prefix_append _ _

/-- How a table answers the calls on it. -/
structure Answers (t : Table) : Prop where
  add_stored : ∀ p, p.name ∈ t.names → t.call (.add p) = (t, some (.duplicateDefinition p.name))
  add_new : ∀ p, p.name ∉ t.names → ∃ u, t.call (.add p) = (u, none) ∧ t.Extends u [p]
  merge_unavailable : ∀ v e, v.productions = .error e → t.call (.merge v) = (t, some e)
  /-- The merge goes up to the first production whose name is taken by then, and
  goes through exactly if there is none. -/
  merge : ∀ v ps, v.productions = .ok ps → ∃ taken rest u, ps = taken ++ rest ∧ t.Extends u taken ∧
    t.call (.merge v) = (u, rest.head?.map fun p => .duplicateDefinition p.name) ∧
    (∀ p, rest.head? = some p → p.name ∈ t.names ++ taken.map Production.name) ∧
    (rest = [] ↔ (t.names ++ ps.map Production.name).Nodup)
  /-- What comes from an inline vocabulary has the tag of that vocabulary. -/
  inline : ∀ language ps, ∃ taken, taken <+: ps ∧
    (t.call (.merge (.inline language ps))).1.toList =
      t.toList ++ taken.map fun p => { p with vocabulary := some language }

theorem answers (t : Table) : t.Answers where
  add_stored _ := call_add_of_mem
  add_new _ := call_add_of_not_mem
  merge_unavailable _ _ := call_merge_of_error
  merge v ps hv := by
    obtain ⟨u, hu, hext⟩ := Assembly.on_addAll ps t
    exact ⟨accepted t.names ps, refused t.names ps, u, (accepted_append_refused _ _).symm, hext,
      (call_merge_of_ok hv).trans hu, fun _ => name_mem_of_head?_refused, refused_eq_nil_iff t.nodup_names⟩
  inline language ps := by
    have hext := (t.extends_call (.merge (.inline language ps))).toList
    refine ⟨accepted t.names ps, ⟨_, accepted_append_refused _ _⟩, hext.trans ?_⟩
    change t.toList ++ (accepted t.names (ps.map fun p => { p with vocabulary := some language })).map _ = _
    rw [accepted_map (f := fun p => { p with vocabulary := some language }) fun _ => rfl, List.map_map]
    rfl

/-- A table made by calls holds what was accepted of the offers, in their order,
each under a name of its own and with a tag, and answers for it. No call changes
what is held. -/
theorem after_holds_reference {language : String} {caseSensitive : Bool} {t₀ : Table}
    (h : Table.new language caseSensitive = .ok t₀) (calls : List Call) :
    let t := t₀.after calls
    t.Holds language caseSensitive (reference language calls) ∧
      t.names.Nodup ∧ (∀ p ∈ t.toList, p.vocabulary.isSome) ∧
      (∀ name, t.get? name = t.toList.find? (·.name = name)) ∧
      (∀ later, t.toList <+: (t.after later).toList) ∧ t.Answers := by
  intro t
  refine ⟨(holds_of_new h).after calls, t.nodup_names, ?_, t.get?_eq_find?, t.prefix_after, t.answers⟩
  intro p hp
  obtain ⟨e, he, rfl⟩ := List.mem_map.1 hp
  exact t.tagged e he

/-- Offers of which some fail: names taken before and in the same vocabulary, and
a vocabulary that cannot be had. -/
def partlyRefused : List Call :=
  [.add ⟨"x", none, none, .epsilon⟩, .add ⟨"x", some "again", none, .literal "x"⟩,
    .merge ⟨"lost", .error (.unknownFormat "lost")⟩,
    .merge (.plain "mixed" [⟨"y", none, some "far", .epsilon⟩, ⟨"z", none, none, .nonTerminal "y"⟩,
      ⟨"y", none, none, .epsilon⟩, ⟨"w", none, none, .epsilon⟩]),
    .merge (.inline "near" [⟨"w", none, some "far", .epsilon⟩])]

theorem after_partlyRefused : ∃ t₀, Table.new "lang" true = .ok t₀ ∧
    ((t₀.after partlyRefused).toList.map fun p => (p.name, p.description, p.vocabulary)) =
      [("x", none, some "lang"), ("y", none, some "far"), ("z", none, some "lang"), ("w", none, some "near")] ∧
    (t₀.after partlyRefused).call (.add ⟨"z", none, none, .epsilon⟩) =
      (t₀.after partlyRefused, some (.duplicateDefinition "z")) := by
  have hnew : Table.new "lang" true = .ok ⟨"lang", true, ∅, by decide, by simp, by simp⟩ := dif_neg (by decide)
  obtain ⟨hholds, -, -, -, -, hanswers⟩ := after_holds_reference hnew partlyRefused
  refine ⟨_, hnew, ?_, hanswers.add_stored _ ?_⟩
  · rw [hholds.toList]
    decide
  · rw [names, hholds.toList]
    decide

end Table

end Ebnf
