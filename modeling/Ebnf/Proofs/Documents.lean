import Ebnf.Proofs.Construction
import Ebnf.Proofs.Results
/-! A table made of a document, and the same table made by hand: its own
productions added one by one without a tag, and each vocabulary read and
offered under its language. Both stop at the same error or hold the same
productions. -/

namespace Ebnf

/-- The productions that a document lists, under a tag: each has the name, the description
and the body that are written there. -/
def listed (vocabulary : Option String) (specs : List ProductionSpec) : List Production :=
  specs.map fun s => { name := s.name, description := s.description, vocabulary, body := s.body }

/-- The productions of a grammar document and of its vocabularies, each tagged with the
language that it is listed for. -/
def GrammarSpec.listedWith (spec : GrammarSpec) (vs : List VocabularySpec) : List Production :=
  listed (some spec.language) spec.productions ++ vs.flatMap fun v => listed (some v.language) v.productions

theorem map_toProduction (specs : List ProductionSpec) (vocabulary : Option String) :
    specs.map (·.toProduction vocabulary) = listed vocabulary specs := rfl

theorem VocabularySpec.toProductions_eq (v : VocabularySpec) :
    v.toProductions = listed (some v.language) v.productions := map_toProduction ..

/-- A production that is listed for a language keeps its tag. -/
theorem map_tagged_listed (language other : String) (specs : List ProductionSpec) :
    (listed (some language) specs).map (·.tagged other) = listed (some language) specs := by
  rw [listed, List.map_map]
  rfl

theorem GrammarSpec.map_tagged_listedWith (spec : GrammarSpec) (vs : List VocabularySpec) (language : String) :
    (spec.listedWith vs).map (·.tagged language) = spec.listedWith vs := by
  rw [listedWith, List.map_append, List.map_flatMap]
  simp only [map_tagged_listed]

namespace Assembly

/-- The table after work that goes through, or the error that ends it. -/
def attempt (w : Assembly Unit) (t : Table) : Except GrammarError Table :=
  match (w.on t).value with
  | (u, none) => .ok u
  | (_, some e) => .error e

theorem attempt_bind (w w' : Assembly Unit) (t : Table) :
    attempt (w >>= fun _ => w') t = attempt w t >>= attempt w' := by
  rw [attempt, attempt, on_bind]
  rcases w.on t with ⟨⟨u, _ | e⟩, es⟩ <;> rfl

theorem attempt_forM {α : Type} (f : α → Assembly Unit) (as : List α) (t : Table) :
    attempt (as.forM f) t = as.foldlM (fun t a => attempt (f a) t) t := by
  induction as generalizing t with
  | nil => rfl
  | cons a as ih =>
    have hcons : (a :: as).forM f = f a >>= fun _ => as.forM f := List.forM_cons ..
    rw [hcons, attempt_bind, List.foldlM_cons]
    exact congrArg _ (funext ih)

theorem attempt_add (p : Production) (t : Table) :
    attempt (add p) t = (t.insert p).mapError .duplicateDefinition := by
  rw [attempt, on, run_add]
  cases t.insert p <;> rfl

theorem attempt_merge {v : Vocabulary} {ps : List Production} (h : v.productions = .ok ps) (t : Table) :
    attempt (merge v) t = attempt (addAll ps) t := by
  rw [attempt, on_merge_of_ok h]
  rfl

theorem attempt_merge_of_error {v : Vocabulary} {e : GrammarError} (h : v.productions = .error e) (t : Table) :
    attempt (merge v) t = .error e := by
  rw [attempt, on_merge_of_error h]

/-- Work that adds some productions adds them all, or stops at the first whose name is
taken by then. -/
theorem attempt_addAll_cases (ps : List Production) (t : Table) :
    (∃ u, attempt (addAll ps) t = .ok u ∧ t.Extends u ps) ∨
      ∃ before p after, ps = before ++ p :: after ∧ (t.names ++ before.map Production.name).Nodup ∧
        p.name ∈ t.names ++ before.map Production.name ∧
        attempt (addAll ps) t = .error (.duplicateDefinition p.name) := by
  obtain ⟨u, hu, hext⟩ := on_addAll ps t
  have happ := accepted_append_refused t.names ps
  cases hr : refused t.names ps with
  | nil =>
    rw [hr, List.append_nil] at happ
    refine .inl ⟨u, ?_, happ ▸ hext⟩
    rw [attempt, hu, hr]
    rfl
  | cons p rest =>
    rw [hr] at happ
    refine .inr ⟨accepted t.names ps, p, rest, happ.symm, hext.names ▸ u.nodup_names, ?_, ?_⟩
    · exact name_mem_of_head?_refused (by rw [hr, List.head?_cons])
    · rw [attempt, hu, hr]
      rfl

theorem extends_of_attempt_addAll {ps : List Production} {t u : Table} (h : attempt (addAll ps) t = .ok u) :
    t.Extends u ps := by
  rcases attempt_addAll_cases ps t with ⟨v, hv, hext⟩ | ⟨_, _, _, _, _, _, he⟩
  · obtain rfl := Except.ok.inj (hv.symm.trans h)
    exact hext
  · cases he.symm.trans h

theorem clash_of_attempt_addAll {ps : List Production} {t : Table} {e : GrammarError}
    (h : attempt (addAll ps) t = .error e) :
    ∃ before p after, ps = before ++ p :: after ∧ (t.names ++ before.map Production.name).Nodup ∧
      p.name ∈ t.names ++ before.map Production.name ∧ e = .duplicateDefinition p.name := by
  rcases attempt_addAll_cases ps t with ⟨_, hv, _⟩ | ⟨before, p, after, hps, hn, hp, he⟩
  · cases hv.symm.trans h
  · exact ⟨before, p, after, hps, hn, hp, Except.error.inj (h.symm.trans he)⟩

end Assembly

namespace Table

/-- The table of a document, made by hand: its own productions as they are written, without
a tag, then each vocabulary, read and offered under its language. -/
def byHand (storage : Storage) (spec : GrammarSpec) (base : String) : Except GrammarError Table := do
  let t ← new spec.language spec.caseSensitive
  let t ← (listed none spec.productions).foldlM (fun t p => Assembly.attempt (Assembly.add p) t) t
  spec.vocabularies.foldlM (fun t path => do
    let v : VocabularySpec ← Document.load storage (Path.join base path)
    Assembly.attempt (Assembly.merge (.inline v.language (listed none v.productions))) t) t

/-- A table with the vocabularies that some paths lead to, as seen from `base`. -/
def importAll (storage : Storage) (base : String) (paths : List String) (t : Table) : Except GrammarError Table :=
  paths.foldlM (fun t path => Assembly.attempt (Assembly.merge (.file storage (Path.join base path))) t) t

theorem attempt_document (storage : Storage) (spec : GrammarSpec) (base : String) (t : Table) :
    Assembly.attempt (Assembly.document storage spec base) t =
      Assembly.attempt (Assembly.addAll (listed (some spec.language) spec.productions)) t >>=
        importAll storage base spec.vocabularies := by
  rw [Assembly.document, map_toProduction, Assembly.attempt_bind]
  exact congrArg _ (funext fun t => Assembly.attempt_forM _ _ t)

theorem value_ofSpec (storage : Storage) (spec : GrammarSpec) (base : String) :
    (ofSpec storage spec base).value =
      new spec.language spec.caseSensitive >>= Assembly.attempt (Assembly.document storage spec base) := by
  unfold ofSpec
  cases new spec.language spec.caseSensitive with
  | error e => rfl
  | ok t =>
    change _ = Assembly.attempt (Assembly.document storage spec base) t
    rw [Assembly.attempt]
    dsimp only [bind]
    rcases (Assembly.document storage spec base).on t with ⟨⟨u, _ | e⟩, es⟩ <;> rfl

/-- Without a tag, the productions get the one that they have in a document of the language. -/
theorem attempt_addAll_listed {t : Table} {language : String} (h : t.language = language)
    (specs : List ProductionSpec) : Assembly.attempt (Assembly.addAll (listed (some language) specs)) t =
      (listed none specs).foldlM (fun t p => Assembly.attempt (Assembly.add p) t) t := by
  rw [Assembly.addAll, Assembly.attempt_forM, listed, listed, List.foldlM_map, List.foldlM_map]
  simp only [Assembly.attempt_add]
  -- the tags agree only as long as the table has the language of the document
  refine foldlM_congr_of_inv (I := fun t => t.language = language) (fun u s hu => ?_) (fun u s v hu hv => ?_) specs h
  · subst hu
    rfl
  · rcases u.insert_cases ⟨s.name, s.description, none, s.body⟩ with ⟨-, he⟩ | ⟨-, w, hw, hext⟩
    · rw [he] at hv
      cases hv
    · rw [hw] at hv
      obtain rfl := Except.ok.inj hv
      exact hext.language.trans hu

theorem attempt_merge_file (storage : Storage) (path : String) (t : Table) :
    Assembly.attempt (Assembly.merge (.file storage path)) t = (do
      let v : VocabularySpec ← Document.load storage path
      Assembly.attempt (Assembly.addAll (listed (some v.language) v.productions)) t) := by
  cases h : (Document.load storage path : Except GrammarError VocabularySpec) with
  | error e =>
    have hv : (Vocabulary.file storage path).productions = .error e := by rw [Vocabulary.file, h]; rfl
    exact Assembly.attempt_merge_of_error hv t
  | ok v =>
    have hv : (Vocabulary.file storage path).productions = .ok (listed (some v.language) v.productions) := by
      rw [Vocabulary.file, h, ← v.toProductions_eq]; rfl
    exact Assembly.attempt_merge hv t

theorem attempt_merge_inline (v : VocabularySpec) (t : Table) :
    Assembly.attempt (Assembly.merge (.inline v.language (listed none v.productions))) t =
      Assembly.attempt (Assembly.addAll (listed (some v.language) v.productions)) t := by
  refine Assembly.attempt_merge (congrArg Except.ok ?_) t
  rw [listed, List.map_map]
  rfl

theorem value_ofSpec_eq_byHand (storage : Storage) (spec : GrammarSpec) (base : String) :
    (ofSpec storage spec base).value = byHand storage spec base := by
  rw [value_ofSpec, byHand]
  cases hnew : new spec.language spec.caseSensitive with
  | error e => rfl
  | ok t =>
    change Assembly.attempt (Assembly.document storage spec base) t = _
    rw [attempt_document, attempt_addAll_listed (holds_of_new hnew).language]
    unfold importAll
    simp only [attempt_merge_file, attempt_merge_inline]
    rfl

/-- The vocabularies that some paths lead to, as seen from `base`. -/
def Read (storage : Storage) (base : String) : List String → List VocabularySpec → Prop :=
  List.Forall₂ fun path v => Document.load storage (Path.join base path) = .ok v

/-- What goes wrong first when a document is worked through from start to end. -/
inductive Fault (storage : Storage) (spec : GrammarSpec) (base : String) : GrammarError → Prop
  | unnamed (h : spec.language = "") : Fault storage spec base .emptyLanguage
  /-- Two of its own productions have one name. The vocabularies play no part. -/
  | repeated {before after : List ProductionSpec} {s : ProductionSpec} (hl : spec.language ≠ "")
      (h : spec.productions = before ++ s :: after) (hn : (before.map ProductionSpec.name).Nodup)
      (hs : s.name ∈ before.map ProductionSpec.name) :
      Fault storage spec base (.duplicateDefinition s.name)
  /-- A vocabulary cannot be read, and those before it were taken over. -/
  | unread {before after : List String} {path : String} {t : Table} {e : GrammarError}
      (h : spec.vocabularies = before ++ path :: after)
      (ht : byHand storage { spec with vocabularies := before } base = .ok t)
      (hv : (Document.load storage (Path.join base path) : Except GrammarError VocabularySpec) = .error e) :
      Fault storage spec base e
  /-- A vocabulary has a name that is taken by then, and those before it were taken over. -/
  | clash {before after : List String} {path : String} {t : Table} {v : VocabularySpec}
      {taken rest : List Production} {p : Production}
      (h : spec.vocabularies = before ++ path :: after)
      (ht : byHand storage { spec with vocabularies := before } base = .ok t)
      (hv : Document.load storage (Path.join base path) = .ok v)
      (hps : listed (some v.language) v.productions = taken ++ p :: rest)
      (hn : (t.names ++ taken.map Production.name).Nodup)
      (hp : p.name ∈ t.names ++ taken.map Production.name) :
      Fault storage spec base (.duplicateDefinition p.name)

/-- A document makes a table if its language is not empty, its own productions can be
added, and then its vocabularies can be taken over. -/
theorem value_ofSpec_eq_ok_iff {storage : Storage} {spec : GrammarSpec} {base : String} {u : Table} :
    (ofSpec storage spec base).value = .ok u ↔ ∃ t₀, new spec.language spec.caseSensitive = .ok t₀ ∧
      ∃ t, Assembly.attempt (Assembly.addAll (listed (some spec.language) spec.productions)) t₀ = .ok t ∧
        importAll storage base spec.vocabularies t = .ok u := by
  simp only [value_ofSpec, bind_eq_ok_iff, attempt_document]

theorem exists_read {storage : Storage} {base : String} {paths : List String} {t u : Table}
    (h : importAll storage base paths t = .ok u) :
    ∃ vs, Read storage base paths vs ∧
      t.Extends u (vs.flatMap fun v => listed (some v.language) v.productions) := by
  induction paths generalizing t with
  | nil =>
    cases h
    exact ⟨[], .nil, .refl _⟩
  | cons path paths ih =>
    rw [importAll, List.foldlM_cons, attempt_merge_file] at h
    obtain ⟨w, hw, h⟩ := bind_eq_ok_iff.1 h
    obtain ⟨v, hv, hw⟩ := bind_eq_ok_iff.1 hw
    obtain ⟨vs, hvs, hext⟩ := ih h
    exact ⟨v :: vs, .cons hv hvs, (Assembly.extends_of_attempt_addAll hw).trans hext⟩

/-- What a table of a document holds. -/
theorem holds_of_value_eq_ok {storage : Storage} {spec : GrammarSpec} {base : String} {t : Table}
    (h : (ofSpec storage spec base).value = .ok t) : ∃ vs, Read storage base spec.vocabularies vs ∧
      t.Holds spec.language spec.caseSensitive (spec.listedWith vs) := by
  obtain ⟨t₀, hnew, u, hhosts, himports⟩ := value_ofSpec_eq_ok_iff.1 h
  obtain ⟨vs, hvs, hext⟩ := exists_read himports
  have hholds := holds_of_new hnew
  have hall := (Assembly.extends_of_attempt_addAll hhosts).trans hext
  refine ⟨vs, hvs, hall.language.trans hholds.language, hall.caseSensitive.trans hholds.caseSensitive, ?_⟩
  rw [hall.toList, hholds.toList, List.nil_append]
  exact spec.map_tagged_listedWith vs _

theorem fault_of_hosts {storage : Storage} {spec : GrammarSpec} {base : String} {t : Table} {e : GrammarError}
    (hnew : new spec.language spec.caseSensitive = .ok t)
    (h : Assembly.attempt (Assembly.addAll (listed (some spec.language) spec.productions)) t = .error e) :
    Fault storage spec base e := by
  have hholds := holds_of_new hnew
  have hnames : t.names = [] := by rw [names, hholds.toList, List.map_nil]
  obtain ⟨before, p, after, hsplit, hn, hp, rfl⟩ := Assembly.clash_of_attempt_addAll h
  obtain ⟨specs, rest, hspecs, rfl, hrest⟩ := List.map_eq_append_iff.1 hsplit
  obtain ⟨s, tail, rfl, rfl, rfl⟩ := List.map_eq_cons_iff.1 hrest
  rw [hnames, List.nil_append, List.map_map] at hn hp
  exact .repeated (hholds.language ▸ t.language_ne) hspecs hn hp

theorem fault_of_imports {storage : Storage} {spec : GrammarSpec} {base : String} {t₀ t : Table}
    {e : GrammarError} (hnew : new spec.language spec.caseSensitive = .ok t₀)
    (hhosts : Assembly.attempt (Assembly.addAll (listed (some spec.language) spec.productions)) t₀ = .ok t)
    (h : importAll storage base spec.vocabularies t = .error e) : Fault storage spec base e := by
  obtain ⟨before, path, after, u, hsplit, hu, he⟩ := exists_of_foldlM_eq_error h
  have ht : byHand storage { spec with vocabularies := before } base = .ok u :=
    (value_ofSpec_eq_byHand ..).symm.trans (value_ofSpec_eq_ok_iff.2 ⟨t₀, hnew, t, hhosts, hu⟩)
  rw [attempt_merge_file] at he
  rcases bind_eq_error_iff.1 he with hv | ⟨v, hv, he⟩
  · exact .unread hsplit ht hv
  · obtain ⟨taken, p, rest, hps, hn, hp, rfl⟩ := Assembly.clash_of_attempt_addAll he
    exact .clash hsplit ht hv hps hn hp

theorem fault_of_value_eq_error {storage : Storage} {spec : GrammarSpec} {base : String} {e : GrammarError}
    (h : (ofSpec storage spec base).value = .error e) : Fault storage spec base e := by
  rw [value_ofSpec] at h
  rcases bind_eq_error_iff.1 h with hnew | ⟨t₀, hnew, h⟩
  · obtain ⟨hl, rfl⟩ := new_eq_error_iff.1 hnew
    exact .unnamed hl
  · rw [attempt_document] at h
    rcases bind_eq_error_iff.1 h with h | ⟨t, hhosts, h⟩
    · exact fault_of_hosts hnew h
    · exact fault_of_imports hnew hhosts h

/-- A document and the work done by hand come to the same: either a table of the
productions that the document and its vocabularies list, in order and tagged with
their languages, or the error of the first thing that goes wrong. -/
theorem ofSpec_by_hand (storage : Storage) (spec : GrammarSpec) (base : String) :
    (ofSpec storage spec base).value = byHand storage spec base ∧
      (∀ t, (ofSpec storage spec base).value = .ok t → ∃ vs, Read storage base spec.vocabularies vs ∧
        t.Holds spec.language spec.caseSensitive (spec.listedWith vs)) ∧
      ∀ e, (ofSpec storage spec base).value = .error e → Fault storage spec base e := by
  refine ⟨value_ofSpec_eq_byHand storage spec base, fun t ht => ?_, fun e he => ?_⟩
  · exact holds_of_value_eq_ok ht
  · exact fault_of_value_eq_error he

/-- A vocabulary in a file. -/
def blankFile : Storage := fun path =>
  if path = "lib/blank.json" then
    .ok ("\x7b\"language\":\"blanks\",\"productions\":[\x7b\"name\":\"blank\"," ++
      "\"description\":\"one blank\",\"body\":\x7b\"Literal\":\" \"\x7d\x7d]\x7d")
  else .error .notFound

/-- A grammar with descriptions that imports the vocabulary some times. -/
def describedSpec (imports : Nat) : GrammarSpec :=
  ⟨"line", false, List.replicate imports "blank.json",
    [⟨"line", some "a row of blanks", .repetition 1 none (.nonTerminal "blank")⟩]⟩

/-- The second import of a vocabulary clashes with the first. -/
theorem ofSpec_by_hand_describedSpec :
    (byHand blankFile (describedSpec 1) "lib").map toList =
      .ok [⟨"line", some "a row of blanks", some "line", .repetition 1 none (.nonTerminal "blank")⟩,
        ⟨"blank", some "one blank", some "blanks", .literal " "⟩] ∧
    byHand blankFile (describedSpec 2) "lib" = .error (.duplicateDefinition "blank") ∧
    Fault blankFile (describedSpec 2) "lib" (.duplicateDefinition "blank") := by
  obtain ⟨honce, -, -⟩ := ofSpec_by_hand blankFile (describedSpec 1) "lib"
  obtain ⟨htwice, -, hfault⟩ := ofSpec_by_hand blankFile (describedSpec 2) "lib"
  have hclash : (ofSpec blankFile (describedSpec 2) "lib").value = .error (.duplicateDefinition "blank") := by
    -- tables cannot be compared by running, their productions can
    have hmap : (ofSpec blankFile (describedSpec 2) "lib").value.map toList =
        .error (.duplicateDefinition "blank") := by decide +kernel
    cases h : (ofSpec blankFile (describedSpec 2) "lib").value with
    | ok t =>
      rw [h] at hmap
      cases hmap
    | error e =>
      rw [h] at hmap
      exact congrArg _ (Except.error.inj hmap)
  refine ⟨?_, htwice.symm.trans hclash, hfault _ hclash⟩
  rw [← honce]
  decide +kernel

end Table

end Ebnf
