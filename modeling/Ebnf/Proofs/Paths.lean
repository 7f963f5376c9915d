import Mathlib.Data.List.Basic
import Ebnf.Path
/-! Plain paths: parts with names of their own between slashes. On them joining is appending
lists of parts, and the parent drops the last part, so a file seen from the parent of a path
is found under a directory where that path is. -/

namespace Ebnf.Path

theorem split_eq_splitOn (l : List Char) : split l = l.splitOn '/' := by
  induction l with
  | nil => rfl
  | cons c rest ih =>
    rw [split, List.splitOn_cons_eq_if_modifyHead, ← ih]
    by_cases hc : c = '/'
    · rw [if_pos hc, if_pos (beq_iff_eq.2 hc)]
    · rw [if_neg hc, if_neg (by simpa using hc)]
      cases hsplit : split rest with
      | nil =>
        rw [ih] at hsplit
        exact absurd hsplit (List.splitOn_ne_nil '/' rest)
      | cons part more => rfl

theorem slash_not_mem_of_mem_split {l part : List Char} (h : part ∈ split l) : '/' ∉ part := by
  induction l generalizing part with
  | nil =>
    rw [List.mem_singleton.1 h]
    exact List.not_mem_nil
  | cons c rest ih =>
    unfold split at h
    split at h
    · rcases List.mem_cons.1 h with rfl | h
      · exact List.not_mem_nil
      · exact ih h
    · next hc =>
      cases hsplit : split rest with
      | nil =>
        rw [hsplit] at h
        rw [List.mem_singleton.1 h]
        simpa using Ne.symm hc
      | cons first more =>
        rw [hsplit] at h ih
        rcases List.mem_cons.1 h with rfl | h
        · exact List.not_mem_cons_of_ne_of_not_mem (Ne.symm hc) (ih (List.mem_cons_self ..))
        · exact ih (List.mem_cons_of_mem _ h)

section Parts

variable {path : String} {ps : List String}

theorem parts_ne_nil (path : String) : parts path ≠ [] := by
  unfold parts
  rw [split_eq_splitOn]
  simp

theorem slash_not_mem_of_mem_parts {part : String} (h : part ∈ parts path) : '/' ∉ part.toList := by
  obtain ⟨l, hl, rfl⟩ := List.mem_map.1 h
  rw [String.toList_ofList]
  exact slash_not_mem_of_mem_split hl

/-- The parts of a path, with slashes between them, are the path. -/
theorem intercalate_parts (path : String) : "/".intercalate (parts path) = path := by
  apply String.toList_injective
  have hsame : (parts path).map String.toList = path.toList.splitOn '/' := by
    simp [parts, split_eq_splitOn, Function.comp_def]
  rw [String.toList_intercalate, hsame]
  exact List.intercalate_splitOn '/'

theorem parts_intercalate (hne : ps ≠ []) (h : ∀ p ∈ ps, '/' ∉ p.toList) : parts ("/".intercalate ps) = ps := by
  have hslash : ∀ l ∈ ps.map String.toList, '/' ∉ l := by
    intro l hl
    obtain ⟨p, hp, rfl⟩ := List.mem_map.1 hl
    exact h p hp
  have hsplit : split ("/".intercalate ps).toList = ps.map String.toList := by
    rw [split_eq_splitOn, String.toList_intercalate]
    exact List.splitOn_intercalate '/' hslash (by simpa using hne)
  unfold parts
  rw [hsplit]
  simp [Function.comp_def]

theorem empty_mem_parts_of_isAbsolute (h : isAbsolute path = true) : "" ∈ parts path := by
  have hhead : path.toList.head? = some '/' := of_decide_eq_true h
  obtain ⟨rest, hrest⟩ := List.head?_eq_some_iff.1 hhead
  unfold parts
  rw [hrest]
  exact List.mem_cons_self ..

theorem empty_mem_parts_of_getLast? (h : path.toList.getLast? = some '/') : "" ∈ parts path := by
  obtain ⟨before, hbefore⟩ := List.getLast?_eq_some_iff.1 h
  unfold parts
  rw [hbefore, split_eq_splitOn, List.splitOn_append_cons_self, List.splitOn_nil]
  simp

end Parts

/-- Whether a part has a name of its own and leads downwards. -/
def IsName (part : String) : Prop := isVoid part = false ∧ part ≠ ".."

instance (part : String) : Decidable (IsName part) := inferInstanceAs (Decidable (_ ∧ _))

/-- A path of names between slashes: it starts and ends with a name, and leads downwards only. -/
def Plain (path : String) : Prop := ∀ part ∈ parts path, IsName part

instance (path : String) : Decidable (Plain path) := inferInstanceAs (Decidable (∀ part ∈ parts path, IsName part))

/-- Names that can stand in a path. -/
def Names (ps : List String) : Prop := ∀ p ∈ ps, IsName p ∧ '/' ∉ p.toList

section Plain

variable {path v : String} {ps as : List String}

theorem Plain.names (h : Plain path) : Names (parts path) :=
  fun p hp => ⟨h p hp, slash_not_mem_of_mem_parts hp⟩

theorem Names.append (ha : Names as) (h : Names ps) : Names (as ++ ps) :=
  fun p hp => (List.mem_append.1 hp).elim (ha p) (h p)

theorem Names.dropLast (h : Names ps) : Names ps.dropLast := fun p hp => h p (List.dropLast_subset ps hp)

theorem Names.parts_intercalate (h : Names ps) (hne : ps ≠ []) : parts ("/".intercalate ps) = ps :=
  Path.parts_intercalate hne fun p hp => (h p hp).2

theorem Names.plain (h : Names ps) (hne : ps ≠ []) : Plain ("/".intercalate ps) := by
  intro p hp
  rw [h.parts_intercalate hne] at hp
  exact (h p hp).1

theorem Plain.empty_not_mem (h : Plain path) : "" ∉ parts path := fun hempty => by
  have hvoid := (h "" hempty).1
  cases hvoid

theorem Plain.isAbsolute_eq (h : Plain path) : isAbsolute path = false := by
  cases hslash : isAbsolute path with
  | false => rfl
  | true => exact absurd (empty_mem_parts_of_isAbsolute hslash) h.empty_not_mem

theorem Plain.ne_empty (h : Plain path) : path ≠ "" := by
  rintro rfl
  exact h.empty_not_mem (List.mem_singleton.2 rfl)

theorem join_of_plain (hbase : Plain path) (h : Plain v) : join path v = path ++ "/" ++ v := by
  have hlast : path.toList.getLast? ≠ some '/' := fun hl => hbase.empty_not_mem (empty_mem_parts_of_getLast? hl)
  unfold join
  rw [h.isAbsolute_eq, if_neg (by simpa using hbase.ne_empty), if_neg hlast]

theorem join_empty (path : String) : join "" path = path := by
  unfold join
  rw [if_pos (by simp)]

theorem join_of_relative (dir : String) (h : isAbsolute path = false) : join dir path = join dir "" ++ path := by
  have hempty : isAbsolute "" = false := by decide
  unfold join
  rw [h, hempty]
  split
  · next hdir =>
    obtain rfl : dir = "" := by simpa using hdir
    simp
  · split <;> simp

/-- Joining plain paths puts their parts one behind the other. -/
theorem join_intercalate (ha : Names as) (h : Plain v) :
    join ("/".intercalate as) v = "/".intercalate (as ++ parts v) := by
  by_cases hne : as = []
  · subst hne
    rw [String.intercalate_nil, join_empty, List.nil_append, intercalate_parts]
  · rw [join_of_plain (ha.plain hne) h, String.intercalate_append_of_ne_nil hne (parts_ne_nil v),
      intercalate_parts]

theorem dropVoid_eq {l : List String} (h : ∀ p ∈ l, isVoid p = false) : dropVoid l = l := by
  rcases l with _ | ⟨p, _ | ⟨next, rest⟩⟩
  · rfl
  · rfl
  · rw [dropVoid, h p (List.mem_cons_self ..)]
    rfl

/-- The parent of a plain path has all of its parts but the last. -/
theorem Plain.parent_eq (h : Plain path) : parent path = "/".intercalate (parts path).dropLast := by
  have hreverse : ∀ p ∈ (parts path).reverse, isVoid p = false := fun p hp => (h p (List.mem_reverse.1 hp)).1
  have htail : ∀ p ∈ (parts path).reverse.tail, isVoid p = false := fun p hp => hreverse p (List.mem_of_mem_tail hp)
  unfold parent
  rw [dropVoid_eq hreverse, dropVoid_eq htail, List.tail_reverse]
  split
  · next hroot =>
    -- the root itself, which has a part without a name
    have hempty : "" ∈ (parts path).reverse := List.mem_of_mem_tail (by rw [List.tail_reverse, hroot]; simp)
    exact absurd (List.mem_reverse.1 hempty) h.empty_not_mem
  · rw [List.reverse_reverse]

/-- The last part of a plain path is its file name. -/
theorem Plain.fileName?_eq (h : Plain path) : fileName? path = (parts path).getLast? := by
  have hall : (parts path).filter (!isVoid ·) = parts path :=
    List.filter_eq_self.2 fun p hp => by rw [(h p hp).1]; rfl
  unfold fileName?
  rw [hall]
  split
  · next hup => exact absurd rfl (h ".." (List.mem_of_getLast? hup)).2
  · rfl

end Plain

section Directory

/-- A directory that paths can be put under: the one they start from, or one with a plain path. -/
def IsDirectory (dir : String) : Prop := dir = "" ∨ Plain dir

instance (dir : String) : Decidable (IsDirectory dir) := inferInstanceAs (Decidable (_ ∨ _))

variable {dir path v : String}

theorem IsDirectory.exists_names (h : IsDirectory dir) : ∃ as, Names as ∧ dir = "/".intercalate as := by
  rcases h with rfl | h
  · exact ⟨[], nofun, rfl⟩
  · exact ⟨parts dir, h.names, (intercalate_parts dir).symm⟩

theorem Names.isDirectory {as : List String} (h : Names as) : IsDirectory ("/".intercalate as) := by
  by_cases hne : as = []
  · exact .inl (hne ▸ String.intercalate_nil)
  · exact .inr (h.plain hne)

theorem Plain.join (hdir : IsDirectory dir) (h : Plain path) : Plain (Path.join dir path) := by
  obtain ⟨as, has, rfl⟩ := hdir.exists_names
  rw [join_intercalate has h]
  exact (has.append h.names).plain (by simp [parts_ne_nil])

theorem Plain.join_parent (h : Plain path) (hv : Plain v) : Plain (Path.join (parent path) v) := by
  rw [h.parent_eq, join_intercalate h.names.dropLast hv]
  exact (h.names.dropLast.append hv.names).plain (by simp [parts_ne_nil])

/-- What is seen from the parent of a path is found under a directory where the path is. -/
theorem join_parent_join (hdir : IsDirectory dir) (h : Plain path) (hv : Plain v) :
    Path.join (parent (Path.join dir path)) v = Path.join dir (Path.join (parent path) v) := by
  have hjoined := Plain.join hdir h
  have hseen := h.join_parent hv
  obtain ⟨as, has, rfl⟩ := hdir.exists_names
  have hparts : parts (Path.join ("/".intercalate as) path) = as ++ parts path := by
    rw [join_intercalate has h]
    exact (has.append h.names).parts_intercalate (by simp [parts_ne_nil])
  have hrest : parts (Path.join (parent path) v) = (parts path).dropLast ++ parts v := by
    rw [h.parent_eq, join_intercalate h.names.dropLast hv]
    exact (h.names.dropLast.append hv.names).parts_intercalate (by simp [parts_ne_nil])
  rw [hjoined.parent_eq, hparts, List.dropLast_append_of_ne_nil (parts_ne_nil path),
    join_intercalate (has.append h.names.dropLast) hv, join_intercalate has hseen, hrest, List.append_assoc]

theorem extension?_join (hdir : IsDirectory dir) (h : Plain path) :
    extension? (Path.join dir path) = extension? path := by
  have hname : fileName? (Path.join dir path) = fileName? path := by
    rw [(Plain.join hdir h).fileName?_eq, h.fileName?_eq]
    obtain ⟨as, has, rfl⟩ := hdir.exists_names
    rw [join_intercalate has h, (has.append h.names).parts_intercalate (by simp [parts_ne_nil]),
      List.getLast?_append_of_ne_nil _ (parts_ne_nil path)]
  unfold extension?
  rw [hname]

end Directory

end Ebnf.Path
