import Ebnf.Proofs.Documents
import Ebnf.Proofs.Paths
/-! Loading where the documents are. When all files are moved under a directory, a document
is loaded from there as it was before: it makes the same table, or it fails with the same
error, which tells of the path under the directory. A tree of files that is moved is such a
storage, as far as the length of its paths is no matter. -/

namespace Ebnf

section Results

variable {α β ε δ : Type} {r : ε → δ}

theorem mapError_bind (x : Except ε α) (k : α → Except ε β) :
    (x >>= k).mapError r = x.mapError r >>= fun a => (k a).mapError r := by
  cases x <;> rfl

/-- A loop whose steps differ in their errors only. -/
theorem foldlM_eq_mapError {f : β → α → Except ε β} {g : β → α → Except δ β} {as : List α}
    (h : ∀ a ∈ as, ∀ b, g b a = (f b a).mapError r) (b : β) : as.foldlM g b = (as.foldlM f b).mapError r := by
  induction as generalizing b with
  | nil => rfl
  | cons a as ih =>
    obtain ⟨ha, has⟩ := List.forall_mem_cons.1 h
    rw [List.foldlM_cons, List.foldlM_cons, mapError_bind, ha]
    exact congrArg _ (funext (ih has))

end Results

variable {dir path : String}

namespace Storage

/-- The storage in which everything is found under a directory, and nothing elsewhere. -/
def moved (s : Storage) (dir : String) : Storage := fun path =>
  let front := (Path.join dir "").toList
  if front.isPrefixOf path.toList then s (String.ofList (path.toList.drop front.length))
  else .error .notFound

theorem moved_join (s : Storage) (dir : String) (h : Path.isAbsolute path = false) :
    s.moved dir (Path.join dir path) = s path := by
  have hfront : (Path.join dir path).toList = (Path.join dir "").toList ++ path.toList := by
    rw [Path.join_of_relative dir h, String.toList_append]
  unfold moved
  rw [hfront, if_pos (List.isPrefixOf_iff_prefix.2 (List.prefix_append _ _)), List.drop_left, String.ofList_toList]

end Storage

namespace GrammarError

/-- An error that tells of a path, told of the path under a directory. -/
def under (dir : String) : GrammarError → GrammarError
  | unreadable path cause => unreadable (Path.join dir path) cause
  | malformed path place fault => malformed (Path.join dir path) place fault
  | unknownFormat path => unknownFormat (Path.join dir path)
  | e => e

end GrammarError

/-- The paths that are read when a grammar document is loaded. -/
inductive Reads (s : Storage) (path : String) : String → Prop
  | document : Reads s path path
  | vocabulary {spec : GrammarSpec} {v : String} (hload : Document.load s path = .ok spec)
      (hv : v ∈ spec.vocabularies) : Reads s path (Path.join (Path.parent path) v)

/-- A storage has under a directory what another has, wherever the loading of a document comes by. -/
def Storage.Carries (s t : Storage) (dir path : String) : Prop := ∀ q, Reads s path q → t (Path.join dir q) = s q

variable {s t : Storage}

namespace Document

variable {α : Type} [Kind α]

theorem parse_under (format : Format) (dir path text : String) :
    (parse format (Path.join dir path) text : Except GrammarError α) =
      (parse format path text).mapError (·.under dir) := by
  cases format with
  | ron =>
    unfold parse
    dsimp only
    split <;> rfl
  | json =>
    unfold parse
    dsimp only
    split <;> rfl

theorem load_under (hdir : Path.IsDirectory dir) (hpath : Path.Plain path) (h : t (Path.join dir path) = s path) :
    (load t (Path.join dir path) : Except GrammarError α) = (load s path).mapError (·.under dir) := by
  have hformat : Format.ofPath? (Path.join dir path) = Format.ofPath? path := by
    unfold Format.ofPath?
    rw [Path.extension?_join hdir hpath]
  unfold load
  rw [hformat, h]
  cases Format.ofPath? path with
  | none => rfl
  | some format =>
    cases s path with
    | error cause => rfl
    | ok text => exact parse_under format dir path text

end Document

/-- A name that is taken is taken wherever the documents are. -/
theorem Assembly.attempt_addAll_under (dir : String) (ps : List Production) (t : Table) :
    (attempt (addAll ps) t).mapError (·.under dir) = attempt (addAll ps) t := by
  cases h : attempt (addAll ps) t with
  | ok u => rfl
  | error e =>
    obtain ⟨before, p, after, -, -, -, rfl⟩ := clash_of_attempt_addAll h
    rfl

namespace Table

theorem new_under (dir language : String) (caseSensitive : Bool) :
    (new language caseSensitive).mapError (·.under dir) = new language caseSensitive := by
  unfold new
  split <;> rfl

theorem importAll_under (hdir : Path.IsDirectory dir) (hpath : Path.Plain path) {paths : List String}
    (hpaths : ∀ v ∈ paths, Path.Plain v)
    (h : ∀ v ∈ paths, t (Path.join dir (Path.join (Path.parent path) v)) = s (Path.join (Path.parent path) v))
    (u : Table) : importAll t (Path.parent (Path.join dir path)) paths u =
      (importAll s (Path.parent path) paths u).mapError (·.under dir) := by
  refine foldlM_eq_mapError (fun v hv u => ?_) u
  rw [Path.join_parent_join hdir hpath (hpaths v hv), attempt_merge_file, attempt_merge_file, mapError_bind,
    Document.load_under hdir (hpath.join_parent (hpaths v hv)) (h v hv)]
  refine congrArg _ (funext fun spec => ?_)
  exact (Assembly.attempt_addAll_under dir _ u).symm

theorem ofSpec_under (hdir : Path.IsDirectory dir) (hpath : Path.Plain path) {spec : GrammarSpec}
    (hpaths : ∀ v ∈ spec.vocabularies, Path.Plain v)
    (h : ∀ v ∈ spec.vocabularies,
      t (Path.join dir (Path.join (Path.parent path) v)) = s (Path.join (Path.parent path) v)) :
    (ofSpec t spec (Path.parent (Path.join dir path))).value =
      (ofSpec s spec (Path.parent path)).value.mapError (·.under dir) := by
  rw [value_ofSpec, value_ofSpec, mapError_bind, new_under]
  refine congrArg _ (funext fun u => ?_)
  rw [attempt_document, attempt_document, mapError_bind, Assembly.attempt_addAll_under]
  refine congrArg _ (funext fun w => ?_)
  exact importAll_under hdir hpath hpaths h w

theorem load_under (hdir : Path.IsDirectory dir) (hpath : Path.Plain path)
    (hvocabularies : ∀ spec : GrammarSpec, Document.load s path = .ok spec →
      ∀ v ∈ spec.vocabularies, Path.Plain v) (h : s.Carries t dir path) :
    (load t (Path.join dir path)).value = (load s path).value.mapError (·.under dir) := by
  unfold load
  rw [Document.load_under hdir hpath (h path .document)]
  cases hload : (Document.load s path : Except GrammarError GrammarSpec) with
  | error e => rfl
  | ok spec => exact ofSpec_under hdir hpath (hvocabularies spec hload) fun v hv => h _ (.vocabulary hload hv)

theorem plain_of_reads (hpath : Path.Plain path)
    (hvocabularies : ∀ spec : GrammarSpec, Document.load s path = .ok spec →
      ∀ v ∈ spec.vocabularies, Path.Plain v) {q : String} (h : Reads s path q) : Path.Plain q := by
  cases h with
  | document => exact hpath
  | vocabulary hload hv => exact hpath.join_parent (hvocabularies _ hload _ hv)

/-- Moving all files under a directory changes nothing for a document but the paths that its
errors tell of, as long as it names its vocabularies by plain paths. -/
theorem load_relocated (s : Storage) {dir path : String} (hdir : Path.IsDirectory dir) (hpath : Path.Plain path)
    (hvocabularies : ∀ spec : GrammarSpec, Document.load s path = .ok spec →
      ∀ v ∈ spec.vocabularies, Path.Plain v) :
    (load (s.moved dir) (Path.join dir path)).value = (load s path).value.mapError (·.under dir) := by
  apply load_under hdir hpath hvocabularies
  intro q hq
  exact s.moved_join dir (plain_of_reads hpath hvocabularies hq).isAbsolute_eq

/-- A grammar with a vocabulary in a directory next to it, and one whose vocabulary is lost. -/
def foundAndLost : Storage := fun path =>
  if path = "hall/g.json" then
    .ok ("\x7b\"language\":\"g\",\"vocabularies\":[\"rare/v.json\"]," ++
      "\"productions\":[\x7b\"name\":\"g\",\"body\":\"Epsilon\"\x7d]\x7d")
  else if path = "hall/h.json" then
    .ok "\x7b\"language\":\"h\",\"vocabularies\":[\"lost.json\"],\"productions\":[]\x7d"
  else if path = "hall/rare/v.json" then
    .ok ("\x7b\"language\":\"v\",\"productions\":[\x7b\"name\":\"a\"," ++
      "\"body\":\x7b\"NonTerminal\":\"g\"\x7d\x7d]\x7d")
  else .error .notFound

theorem load_relocated_foundAndLost :
    ((load (foundAndLost.moved "attic/east") "attic/east/hall/g.json").value.map toList =
      .ok [⟨"g", none, some "g", .epsilon⟩, ⟨"a", none, some "v", .nonTerminal "g"⟩]) ∧
    ((load (foundAndLost.moved "attic/east") "attic/east/hall/h.json").value.map toList =
      .error (.unreadable "attic/east/hall/lost.json" .notFound)) := by
  have hdir : Path.IsDirectory "attic/east" := by decide
  have hg : (Document.load foundAndLost "hall/g.json" : Except GrammarError GrammarSpec) =
      .ok ⟨"g", true, ["rare/v.json"], [⟨"g", none, .epsilon⟩]⟩ := by decide +kernel
  have hh : (Document.load foundAndLost "hall/h.json" : Except GrammarError GrammarSpec) =
      .ok ⟨"h", true, ["lost.json"], []⟩ := by decide +kernel
  have hmoved := load_relocated foundAndLost hdir (show Path.Plain "hall/g.json" by decide) fun spec hspec => by
    obtain rfl := Except.ok.inj (hg.symm.trans hspec)
    decide
  have hmoved' := load_relocated foundAndLost hdir (show Path.Plain "hall/h.json" by decide) fun spec hspec => by
    obtain rfl := Except.ok.inj (hh.symm.trans hspec)
    decide
  constructor
  · refine (congrArg (Except.map toList) hmoved).trans ?_
    decide +kernel
  · refine (congrArg (Except.map toList) hmoved').trans ?_
    decide +kernel

end Table

end Ebnf
