import Mathlib.Tactic.Tauto
import Ebnf.CommandLine
/-! The arguments of the program. They are accepted if they hold one path and, in any order,
some of the flags, none of them twice. Then a flag is on exactly if it is among them. -/

namespace Ebnf.CommandLine

def flags : List String := ["--rootless", "--skip-unused", "--sorted", "--print"]

namespace Options

/-- Whether a flag is on. -/
def Has (o : Options) (flag : String) : Prop :=
  flag = "--rootless" ∧ o.rootless ∨ flag = "--skip-unused" ∧ o.skipUnused ∨
    flag = "--sorted" ∧ o.sorted ∨ flag = "--print" ∧ o.print

variable {o o' : Options} {arg : String}

theorem setPath?_eq_some_iff : o.setPath? arg = some o' ↔
    arg ≠ "" ∧ o.path = .none ∧ o' = { o with path := some arg } := by
  unfold setPath?
  by_cases harg : arg = ""
  · simp [harg]
  · cases hpath : o.path with
    | none => simp [harg, eq_comm]
    | some path => simp

theorem of_setFlag?_eq_some (h : o.setFlag? arg = some o') :
    o'.path = o.path ∧ ∀ flag, o'.Has flag ↔ o.Has flag ∨ flag = arg := by
  unfold setFlag? at h
  split at h
  case h_5 => cases h
  all_goals
    split at h
    · cases h
    · next hoff =>
      obtain rfl := Option.some.inj h
      refine ⟨rfl, fun flag => ?_⟩
      simp only [Has, hoff, and_true]
      tauto

/-- A flag can be turned on if there is such a flag and it is not on yet. -/
theorem isSome_setFlag?_iff : (o.setFlag? arg).isSome ↔ arg ∈ flags ∧ ¬ o.Has arg := by
  unfold setFlag?
  split
  case h_5 =>
    simp_all [flags, failure, Alternative.failure]
  all_goals
    split
    · next hon => simp [flags, Has, hon, failure]
    · next hoff => simp [flags, Has, hoff]

end Options

/-- Whether an argument is meant as a flag, if flags may stand where it does. -/
def IsFlag (arg : String) : Prop := arg.toList.head? = some '-' ∧ arg ≠ "-"

instance (arg : String) : Decidable (IsFlag arg) := inferInstanceAs (Decidable (_ ∧ _))

theorem isFlag_of_mem_flags : ∀ flag ∈ flags, IsFlag flag := by decide

/-- The arguments that are flags if they start with a dash. -/
def given (args : List String) : List String := args.takeWhile (· ≠ "--")

def givenFlags (args : List String) : List String := (given args).filter IsFlag

/-- The arguments that are paths: those that are not meant as flags, and all after two dashes. -/
def givenPaths (args : List String) : List String :=
  (given args).filter (¬ IsFlag ·) ++ (args.dropWhile (· ≠ "--")).tail

section Given

variable {arg : String} (args : List String)

theorem given_cons (h : arg ≠ "--") : given (arg :: args) = arg :: given args :=
  List.takeWhile_cons_of_pos (decide_eq_true h)

theorem givenFlags_cons (h : arg ≠ "--") :
    givenFlags (arg :: args) = if IsFlag arg then arg :: givenFlags args else givenFlags args := by
  rw [givenFlags, given_cons args h, List.filter_cons]
  simp only [decide_eq_true_iff]
  rfl

theorem givenPaths_cons (h : arg ≠ "--") :
    givenPaths (arg :: args) = if IsFlag arg then givenPaths args else arg :: givenPaths args := by
  have hdrop : (arg :: args).dropWhile (· ≠ "--") = args.dropWhile (· ≠ "--") :=
    List.dropWhile_cons_of_pos (decide_eq_true h)
  rw [givenPaths, given_cons args h, hdrop]
  by_cases harg : IsFlag arg <;> simp [harg, givenPaths]

theorem givenFlags_dashes : givenFlags ("--" :: args) = [] := rfl

theorem mem_of_mem_givenPaths {args : List String} {path : String} (h : path ∈ givenPaths args) : path ∈ args := by
  rcases List.mem_append.1 h with h | h
  · exact (List.takeWhile_sublist _).subset (List.mem_filter.1 h).1
  · exact (List.dropWhile_sublist _).subset (List.mem_of_mem_tail h)

theorem mem_givenFlags_iff {args : List String} {flag : String} (h : flag ∈ flags) :
    flag ∈ givenFlags args ↔ flag ∈ given args := by
  rw [givenFlags, List.mem_filter, and_iff_left (decide_eq_true (isFlag_of_mem_flags flag h))]

end Given

section Parse

variable {arg : String} {args : List String} {o o' : Options}

theorem parse_cons (h : arg ≠ "--") (args : List String) (o : Options) :
    parse (arg :: args) o = (if IsFlag arg then o.setFlag? arg else o.setPath? arg) >>= parse args := by
  rw [parse]
  · by_cases hflag : arg.toList.head? = some '-' ∧ arg ≠ "-" <;> simp [IsFlag, hflag]
  · exact h

theorem of_foldlM_setPath? (h : args.foldlM Options.setPath? o = some o') :
    o'.path.toList = o.path.toList ++ args ∧ ∀ flag, o'.Has flag ↔ o.Has flag := by
  induction args generalizing o with
  | nil =>
    obtain rfl := Option.some.inj h
    exact ⟨(List.append_nil _).symm, fun _ => Iff.rfl⟩
  | cons arg args ih =>
    rw [List.foldlM_cons] at h
    obtain ⟨o₁, h₁, h⟩ := Option.bind_eq_some_iff.1 h
    obtain ⟨-, hnone, rfl⟩ := Options.setPath?_eq_some_iff.1 h₁
    obtain ⟨hpath, hflags⟩ := ih h
    exact ⟨by rw [hpath, hnone]; rfl, hflags⟩

/-- Arguments that are accepted give the path that is among them, and turn on their flags. -/
theorem of_parse_eq_some (h : parse args o = some o') :
    o'.path.toList = o.path.toList ++ givenPaths args ∧
      ∀ flag, o'.Has flag ↔ o.Has flag ∨ flag ∈ givenFlags args := by
  induction args generalizing o with
  | nil =>
    obtain rfl := Option.some.inj h
    exact ⟨(List.append_nil _).symm, fun _ => by simp [givenFlags, given]⟩
  | cons arg args ih =>
    by_cases harg : arg = "--"
    · subst harg
      obtain ⟨hpath, hflags⟩ := of_foldlM_setPath? (show args.foldlM Options.setPath? o = some o' from h)
      exact ⟨hpath, fun flag => by simp [hflags, givenFlags_dashes]⟩
    · rw [parse_cons harg] at h
      obtain ⟨o₁, h₁, h⟩ := Option.bind_eq_some_iff.1 h
      obtain ⟨hpath, hflags⟩ := ih h
      rw [givenFlags_cons args harg, givenPaths_cons args harg]
      split at h₁
      · next hflag =>
        obtain ⟨hsame, hon⟩ := Options.of_setFlag?_eq_some h₁
        rw [if_pos hflag, if_pos hflag, hpath, hsame]
        exact ⟨rfl, fun flag => by rw [hflags, hon, List.mem_cons, or_assoc]⟩
      · next hflag =>
        obtain ⟨-, hnone, rfl⟩ := Options.setPath?_eq_some_iff.1 h₁
        rw [if_neg hflag, if_neg hflag, hpath, hnone]
        exact ⟨rfl, hflags⟩

theorem isSome_setPath?_bind_iff {rest : Options → Option Options} : (o.setPath? arg >>= rest).isSome ↔
    arg ≠ "" ∧ o.path = none ∧ (rest { o with path := some arg }).isSome := by
  simp only [Option.isSome_iff_exists, bind, Option.bind_eq_some_iff, Options.setPath?_eq_some_iff]
  constructor
  · rintro ⟨o', _, ⟨harg, hnone, rfl⟩, h⟩
    exact ⟨harg, hnone, o', h⟩
  · rintro ⟨harg, hnone, o', h⟩
    exact ⟨o', _, ⟨harg, hnone, rfl⟩, h⟩

/-- There is room for one path. -/
theorem length_toList_cons_le_one_iff {path : Option String} {paths : List String} :
    (path.toList ++ arg :: paths).length ≤ 1 ↔ path = none ∧ paths = [] := by
  cases path <;> simp

theorem isSome_foldlM_setPath?_iff : (args.foldlM Options.setPath? o).isSome ↔
    "" ∉ args ∧ (o.path.toList ++ args).length ≤ 1 := by
  induction args generalizing o with
  | nil => cases o.path <;> simp
  | cons arg args ih =>
    rw [List.foldlM_cons, isSome_setPath?_bind_iff, ih, length_toList_cons_le_one_iff, List.mem_cons, not_or,
      ne_comm]
    simp only [Option.toList_some, List.singleton_append, List.length_cons]
    constructor
    · rintro ⟨harg, hnone, hempty, hlength⟩
      exact ⟨⟨harg, hempty⟩, hnone, List.eq_nil_of_length_eq_zero (by omega)⟩
    · rintro ⟨⟨harg, -⟩, hnone, rfl⟩
      exact ⟨harg, hnone, List.not_mem_nil, Nat.le_refl 1⟩

/-- Whether arguments can be taken after others: their flags are known and new, and with the
path that there may be already they have at most one. -/
structure Fits (args : List String) (o : Options) : Prop where
  nodup : (givenFlags args).Nodup
  known : ∀ flag ∈ givenFlags args, flag ∈ flags ∧ ¬ o.Has flag
  path_ne : "" ∉ givenPaths args
  one_path : (o.path.toList ++ givenPaths args).length ≤ 1

theorem fits_cons_of_isFlag (h : arg ≠ "--") (hflag : IsFlag arg) {o₁ : Options} (h₁ : o.setFlag? arg = some o₁) :
    Fits (arg :: args) o ↔ Fits args o₁ := by
  obtain ⟨hpath, hon⟩ := Options.of_setFlag?_eq_some h₁
  have hnew := Options.isSome_setFlag?_iff.1 (Option.isSome_of_mem h₁)
  have hflags : givenFlags (arg :: args) = arg :: givenFlags args := by rw [givenFlags_cons args h, if_pos hflag]
  have hpaths : givenPaths (arg :: args) = givenPaths args := by rw [givenPaths_cons args h, if_pos hflag]
  constructor
  · rintro ⟨hnodup, hknown, hne, hone⟩
    rw [hflags, List.nodup_cons] at hnodup
    rw [hflags, List.forall_mem_cons] at hknown
    refine ⟨hnodup.2, fun flag hmem => ⟨(hknown.2 flag hmem).1, ?_⟩, hpaths ▸ hne, hpath ▸ hpaths ▸ hone⟩
    rw [hon, not_or]
    exact ⟨(hknown.2 flag hmem).2, fun heq => hnodup.1 (heq ▸ hmem)⟩
  · rintro ⟨hnodup, hknown, hne, hone⟩
    refine ⟨?_, ?_, hpaths ▸ hne, hpaths ▸ hpath ▸ hone⟩
    · rw [hflags, List.nodup_cons]
      exact ⟨fun hmem => (hknown arg hmem).2 ((hon arg).2 (.inr rfl)), hnodup⟩
    · rw [hflags, List.forall_mem_cons]
      refine ⟨hnew, fun flag hmem => ⟨(hknown flag hmem).1, fun hhas => ?_⟩⟩
      exact (hknown flag hmem).2 ((hon flag).2 (.inl hhas))

theorem fits_cons_of_not_isFlag (h : arg ≠ "--") (hflag : ¬ IsFlag arg) : Fits (arg :: args) o ↔
    arg ≠ "" ∧ o.path = none ∧ Fits args { o with path := some arg } := by
  have hflags : givenFlags (arg :: args) = givenFlags args := by rw [givenFlags_cons args h, if_neg hflag]
  have hpaths : givenPaths (arg :: args) = arg :: givenPaths args := by rw [givenPaths_cons args h, if_neg hflag]
  constructor
  · rintro ⟨hnodup, hknown, hne, hone⟩
    rw [hpaths, List.mem_cons, not_or] at hne
    rw [hpaths, length_toList_cons_le_one_iff] at hone
    exact ⟨Ne.symm hne.1, hone.1, hflags ▸ hnodup, hflags ▸ hknown, hne.2, by rw [hone.2]; exact Nat.le_refl 1⟩
  · rintro ⟨harg, hnone, hnodup, hknown, hne, hone⟩
    refine ⟨hflags ▸ hnodup, hflags ▸ hknown, ?_, ?_⟩
    · rw [hpaths, List.mem_cons, not_or]
      exact ⟨Ne.symm harg, hne⟩
    · rw [hpaths, length_toList_cons_le_one_iff]
      have hlength : 1 + (givenPaths args).length ≤ 1 := by simpa [Nat.add_comm] using hone
      exact ⟨hnone, List.eq_nil_of_length_eq_zero (by omega)⟩

theorem isSome_parse_iff : (parse args o).isSome ↔ Fits args o := by
  induction args generalizing o with
  | nil =>
    refine iff_of_true rfl ⟨List.nodup_nil, nofun, nofun, ?_⟩
    cases hpath : o.path <;> simp [givenPaths, given]
  | cons arg args ih =>
    by_cases harg : arg = "--"
    · subst harg
      -- after two dashes every argument is a path
      have hpaths : (parse ("--" :: args) o).isSome ↔ "" ∉ args ∧ (o.path.toList ++ args).length ≤ 1 :=
        isSome_foldlM_setPath?_iff
      rw [hpaths]
      exact ⟨fun ⟨hne, hone⟩ => ⟨List.nodup_nil, nofun, hne, hone⟩, fun h => ⟨h.path_ne, h.one_path⟩⟩
    · rw [parse_cons harg]
      by_cases hflag : IsFlag arg
      · rw [if_pos hflag]
        cases h₁ : o.setFlag? arg with
        | none =>
          -- a flag that is refused is not known, or is on already, so it does not fit either
          refine iff_of_false Bool.false_ne_true fun h => ?_
          have hmem : arg ∈ givenFlags (arg :: args) := by
            rw [givenFlags_cons args harg, if_pos hflag]
            exact List.mem_cons_self ..
          have hset := Options.isSome_setFlag?_iff.2 (h.known arg hmem)
          rw [h₁] at hset
          cases hset
        | some o₁ => exact ih.trans (fits_cons_of_isFlag harg hflag h₁).symm
      · rw [if_neg hflag, isSome_setPath?_bind_iff, fits_cons_of_not_isFlag harg hflag, ih]

/-- Arguments with one path, and with known flags, each of them once. -/
structure Acceptable (args : List String) (path : String) : Prop where
  paths : givenPaths args = [path]
  path_ne : path ≠ ""
  known : ∀ flag ∈ givenFlags args, flag ∈ flags
  nodup : (givenFlags args).Nodup

/-- Arguments are accepted with a path exactly if they hold that path and no other one, and
some of the flags, in any order. -/
theorem acceptable_iff {path : String} :
    (∃ o, parse args .none = some o ∧ o.path = some path) ↔ Acceptable args path := by
  constructor
  · rintro ⟨o, hparse, hpath⟩
    have hfits := isSome_parse_iff.1 (Option.isSome_of_mem hparse)
    have hpaths : [path] = givenPaths args := by
      have h := (of_parse_eq_some hparse).1
      rwa [hpath] at h
    refine ⟨hpaths.symm, ?_, fun flag hflag => (hfits.known flag hflag).1, hfits.nodup⟩
    rintro rfl
    exact hfits.path_ne (hpaths ▸ List.mem_singleton_self _)
  · intro h
    have hfits : Fits args .none :=
      ⟨h.nodup, fun flag hflag => ⟨h.known flag hflag, by simp [Options.Has, Options.none]⟩,
        by simpa [h.paths] using h.path_ne.symm, by simp [h.paths, Options.none]⟩
    obtain ⟨o, hparse⟩ := Option.isSome_iff_exists.1 (isSome_parse_iff.2 hfits)
    refine ⟨o, hparse, ?_⟩
    have hpath := (of_parse_eq_some hparse).1
    rw [h.paths] at hpath
    cases ho : o.path with
    | none => simp [ho, Options.none] at hpath
    | some p => simpa [ho, Options.none] using hpath

end Parse

/-- What accepted arguments say: one path, and the flags that are among them. -/
structure Says (args : List String) (o : Options) (path : String) : Prop where
  path_mem : path ∈ args
  path_ne : path ≠ ""
  rootless : o.rootless ↔ "--rootless" ∈ given args
  skipUnused : o.skipUnused ↔ "--skip-unused" ∈ given args
  sorted : o.sorted ↔ "--sorted" ∈ given args
  print : o.print ↔ "--print" ∈ given args

theorem says_of_parse {args : List String} {o : Options} {path : String} (h : parse args .none = some o)
    (hpath : o.path = some path) : Says args o path := by
  have haccept := acceptable_iff.1 ⟨o, h, hpath⟩
  have hgiven : ∀ flag ∈ flags, o.Has flag ↔ flag ∈ given args := by
    intro flag hmem
    rw [(of_parse_eq_some h).2, or_iff_right (by simp [Options.Has, Options.none]), mem_givenFlags_iff hmem]
  have hmem : path ∈ givenPaths args := haccept.paths ▸ List.mem_singleton_self path
  exact ⟨mem_of_mem_givenPaths hmem, haccept.path_ne, by simpa [Options.Has] using hgiven "--rootless" (by decide),
    by simpa [Options.Has] using hgiven "--skip-unused" (by decide),
    by simpa [Options.Has] using hgiven "--sorted" (by decide),
    by simpa [Options.Has] using hgiven "--print" (by decide)⟩

end Ebnf.CommandLine
