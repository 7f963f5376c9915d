import Ebnf.Proofs.Relocation
/-! Trees of files that are moved under a directory. Following a path in the tree and
following it behind the path of the directory lead to the same stop. What is read is the
same too, unless a path gets too long. -/

namespace Ebnf

namespace FileTree

/-- The tree with everything under a directory. -/
def moved (t : FileTree) (dir : List String) : FileTree where
  files := t.files.map fun f => (dir ++ f.1, f.2)
  directories := dir :: t.directories.map (dir ++ ·)

/-- Where a path leads in a tree that was moved. -/
def Stop.under (dir : List String) : Stop → Stop
  | directory place => directory (dir ++ place)
  | stop => stop

/-- Names for the directories on the way to one, none of them too long for a tree. -/
structure Fit (dir : List String) : Prop where
  names : Path.Names dir
  short : ∀ p ∈ dir, p.utf8ByteSize ≤ longestName
  no_nul : '\x00' ∉ ("/".intercalate dir).toList

variable {t : FileTree} {dir before rest place : List String}

theorem follow_directory (t : FileTree) (place : List String) {part : String} (h : Path.IsName part) :
    t.follow (.directory place) part =
      if longestName < part.utf8ByteSize then .error .nameTooLong
      else match t.file? (place ++ [part]) with
        | some content => .ok (.file content)
        | none => if t.isDirectory (place ++ [part]) then .ok (.directory (place ++ [part])) else .error .notFound := by
  have hvoid : ¬Path.isVoid part = true := by
    rw [h.1]
    exact Bool.false_ne_true
  exact (if_neg hvoid).trans (if_neg h.2)

theorem file?_moved (t : FileTree) (dir place : List String) : (t.moved dir).file? (dir ++ place) = t.file? place := by
  have hsame : ((fun f : List String × ByteArray => f.1 == dir ++ place) ∘
      fun f : List String × ByteArray => (dir ++ f.1, f.2)) = fun f => f.1 == place := by
    funext f
    rw [Function.comp_apply, Bool.eq_iff_iff, beq_iff_eq, beq_iff_eq, List.append_cancel_left_eq]
  unfold file? moved
  rw [List.find?_map, Option.map_map, hsame]
  rfl

/-- No file stands in the way to the directory. -/
theorem file?_moved_eq_none (hroot : ∀ f ∈ t.files, f.1 ≠ []) (h : before <+: dir) :
    (t.moved dir).file? before = none := by
  obtain ⟨rest, rfl⟩ := h
  unfold file?
  rw [Option.map_eq_none_iff, List.find?_eq_none]
  intro f hf hsame
  obtain ⟨g, hg, rfl⟩ := List.mem_map.1 hf
  have hempty : rest ++ g.1 = [] := by simpa using hsame
  exact hroot g hg (List.append_eq_nil_iff.1 hempty).2

theorem isDirectory_moved (t : FileTree) (dir : List String) (h : place ≠ []) :
    (t.moved dir).isDirectory (dir ++ place) = t.isDirectory place := by
  have hdir : (dir ++ place).isPrefixOf dir = false := by
    rw [Bool.eq_false_iff, Ne, List.isPrefixOf_iff_prefix]
    intro hle
    have hlength := hle.length_le
    rw [List.length_append] at hlength
    exact h (List.length_eq_zero_iff.1 (by omega))
  have hprefix : ∀ q : List String, (dir ++ place).isPrefixOf (dir ++ q) = place.isPrefixOf q := fun q => by
    rw [Bool.eq_iff_iff, List.isPrefixOf_iff_prefix, List.isPrefixOf_iff_prefix, List.prefix_append_right_inj]
  unfold isDirectory moved
  simp only [List.any_cons, List.any_map, Function.comp_def, hdir, hprefix, Bool.false_or, List.length_append,
    Nat.add_lt_add_iff_left]

theorem isDirectory_moved_front (t : FileTree) (h : before <+: dir) : (t.moved dir).isDirectory before = true := by
  unfold isDirectory moved
  rw [List.any_cons, List.isPrefixOf_iff_prefix.2 h]
  rfl

/-- The path of the directory leads there. -/
theorem foldlM_follow_directory (hroot : ∀ f ∈ t.files, f.1 ≠ []) (hfit : Fit dir) (h : before ++ rest = dir) :
    rest.foldlM (t.moved dir).follow (.directory before) = .ok (.directory dir) := by
  induction rest generalizing before with
  | nil =>
    rw [← h, List.append_nil]
    rfl
  | cons p rest ih =>
    have hp : p ∈ dir := h ▸ by simp
    have hname := (hfit.names p hp).1
    have hshort := hfit.short p hp
    have hway : before ++ [p] <+: dir := ⟨rest, by rw [← h, List.append_assoc, List.singleton_append]⟩
    have hstep : (t.moved dir).follow (.directory before) p = .ok (.directory (before ++ [p])) := by
      rw [follow_directory _ _ hname, if_neg (by omega), file?_moved_eq_none hroot hway]
      exact if_pos (isDirectory_moved_front t hway)
    rw [List.foldlM_cons, hstep]
    exact ih (by rw [← h, List.append_assoc, List.singleton_append])

theorem follow_moved (t : FileTree) (dir : List String) {part : String} (h : Path.IsName part) (stop : Stop) :
    (t.moved dir).follow (stop.under dir) part = (t.follow stop part).map (Stop.under dir) := by
  cases stop with
  | file content => rfl
  | outside =>
    unfold follow Stop.under
    dsimp only
    split
    · rfl
    · split <;> rfl
  | directory place =>
    rw [Stop.under, follow_directory _ _ h, follow_directory _ _ h, List.append_assoc, file?_moved,
      isDirectory_moved t dir (by simp)]
    split
    · rfl
    · cases t.file? (place ++ [part]) with
      | some content => rfl
      | none =>
        dsimp only
        split <;> rfl

/-- Plain paths lead to the same stops as before, behind the directory. -/
theorem foldlM_follow_moved (t : FileTree) (dir : List String) {ps : List String} (h : ∀ p ∈ ps, Path.IsName p)
    (stop : Stop) : ps.foldlM (t.moved dir).follow (stop.under dir) =
      (ps.foldlM t.follow stop).map (Stop.under dir) := by
  induction ps generalizing stop with
  | nil => rfl
  | cons p ps ih =>
    obtain ⟨hp, hps⟩ := List.forall_mem_cons.1 h
    rw [List.foldlM_cons, List.foldlM_cons, follow_moved t dir hp]
    cases t.follow stop p with
    | error e => rfl
    | ok next => exact ih hps next

/-- The bytes of a stop. -/
def Stop.content : Stop → Except ReadError ByteArray
  | file content => .ok content
  | _ => .error .isADirectory

theorem bytes_of_plain (t : FileTree) {path : String} (h : Path.Plain path) : t.bytes path =
    if '\x00' ∈ path.toList then .error .nulInName
    else if pathLimit ≤ path.utf8ByteSize then .error .nameTooLong
    else (Path.parts path).foldlM t.follow (.directory []) >>= Stop.content := by
  unfold bytes
  by_cases hnul : '\x00' ∈ path.toList
  · rw [if_pos hnul, if_pos hnul]
    rfl
  · rw [if_neg hnul, if_neg hnul, if_neg h.ne_empty, h.isAbsolute_eq, if_neg Bool.false_ne_true]
    by_cases hlong : pathLimit ≤ path.utf8ByteSize
    · rw [if_pos hlong, if_pos hlong]
      rfl
    · rw [if_neg hlong, if_neg hlong]
      refine congrArg (List.foldlM t.follow (.directory []) (Path.parts path) >>= ·) (funext fun stop => ?_)
      cases stop <;> rfl

theorem content_under (dir : List String) (stop : Stop) : (stop.under dir).content = stop.content := by
  cases stop <;> rfl

/-- A path behind the directory has a NUL in it only if it has one itself. -/
theorem nul_mem_join_iff {dir path : String} (hnul : '\x00' ∉ dir.toList) (h : Path.Plain path) :
    '\x00' ∈ (Path.join dir path).toList ↔ '\x00' ∈ path.toList := by
  have hfront : '\x00' ∉ (Path.join dir "").toList := by
    unfold Path.join
    split
    · simp
    · split <;> simp [hnul]
  rw [Path.join_of_relative _ h.isAbsolute_eq, String.toList_append, List.mem_append]
  exact or_iff_right hfront

/-- What is read in a tree is read behind the directory once it is moved there, if the path
does not get too long. -/
theorem storage_moved (hroot : ∀ f ∈ t.files, f.1 ≠ []) (hfit : Fit dir) {path : String} (hpath : Path.Plain path)
    (hshort : (Path.join ("/".intercalate dir) path).utf8ByteSize < pathLimit) :
    (t.moved dir).storage (Path.join ("/".intercalate dir) path) = t.storage path := by
  have hdir : Path.IsDirectory ("/".intercalate dir) := hfit.names.isDirectory
  have hsize : path.utf8ByteSize < pathLimit := by
    rw [Path.join_of_relative _ hpath.isAbsolute_eq, String.utf8ByteSize_append] at hshort
    omega
  have hparts : Path.parts (Path.join ("/".intercalate dir) path) = dir ++ Path.parts path := by
    rw [Path.join_intercalate hfit.names hpath]
    exact (hfit.names.append hpath.names).parts_intercalate (by simp [Path.parts_ne_nil])
  have hfollow : (dir ++ Path.parts path).foldlM (t.moved dir).follow (.directory []) =
      ((Path.parts path).foldlM t.follow (.directory [])).map (Stop.under dir) := by
    rw [List.foldlM_append, foldlM_follow_directory hroot hfit (List.nil_append dir)]
    have hstart : Stop.directory dir = (Stop.directory []).under dir := by rw [Stop.under, List.append_nil]
    rw [hstart]
    exact foldlM_follow_moved t dir hpath _
  have hbytes : (t.moved dir).bytes (Path.join ("/".intercalate dir) path) = t.bytes path := by
    rw [bytes_of_plain _ (Path.Plain.join hdir hpath), bytes_of_plain _ hpath, hparts, hfollow,
      if_neg (Nat.not_le.2 hshort), if_neg (Nat.not_le.2 hsize)]
    refine if_congr (nul_mem_join_iff hfit.no_nul hpath) rfl ?_
    cases (Path.parts path).foldlM t.follow (.directory []) with
    | error e => rfl
    | ok stop => exact content_under dir stop
  unfold storage
  rw [hbytes]

/-- A document in a tree of files is loaded as before when the tree is moved, as long as the
paths that are read do not get too long. -/
theorem load_moved (hroot : ∀ f ∈ t.files, f.1 ≠ []) (hfit : Fit dir) {path : String} (hpath : Path.Plain path)
    (hvocabularies : ∀ spec : GrammarSpec, Document.load t.storage path = .ok spec →
      ∀ v ∈ spec.vocabularies, Path.Plain v)
    (hshort : ∀ q, Reads t.storage path q → (Path.join ("/".intercalate dir) q).utf8ByteSize < pathLimit) :
    (Table.load (t.moved dir).storage (Path.join ("/".intercalate dir) path)).value =
      (Table.load t.storage path).value.mapError (·.under ("/".intercalate dir)) := by
  apply Table.load_under hfit.names.isDirectory hpath hvocabularies
  intro q hq
  exact storage_moved hroot hfit (Table.plain_of_reads hpath hvocabularies hq) (hshort q hq)

end FileTree

end Ebnf
