import Ebnf.Proofs.Ledger
import Ebnf.Proofs.Walk
import Ebnf.Resolution
/-! The names a body refers to, as they are come by and as they are looked up. A
turn of the walk takes the first body off the list and puts its parts in its
place, so the list gets longer and shorter again. What never gets longer is the
number of bodies in the list, those inside others included: each turn has one
less of them left. -/

namespace Ebnf.Expr

/-- The bodies that a body is put together from. -/
def parts : Expr → List Expr
  | sequence bodies | alternatives bodies => bodies
  | optional body | repetition _ _ body => [body]
  | _ => []

/-- The name that a body itself is a reference to. -/
def ownNames : Expr → List String
  | nonTerminal name => [name]
  | _ => []

mutual

/-- The number of bodies in a body, itself included. -/
def size : Expr → Nat
  | epsilon | literal _ | characterSet _ | nonTerminal _ => 1
  | sequence bodies | alternatives bodies => 1 + sizeAll bodies
  | optional body | repetition _ _ body => 1 + size body

def sizeAll : List Expr → Nat
  | [] => 0
  | e :: rest => size e + sizeAll rest

end

theorem names_eq_parts (e : Expr) : e.names = e.ownNames ++ namesAll e.parts := by
  cases e <;> simp [names, ownNames, parts, namesAll]

theorem size_eq_parts (e : Expr) : e.size = 1 + sizeAll e.parts := by
  cases e <;> simp [size, parts, sizeAll]

theorem sizeAll_append (as bs : List Expr) : sizeAll (as ++ bs) = sizeAll as + sizeAll bs := by
  induction as with
  | nil => simp [sizeAll]
  | cons a as ih =>
    simp only [List.cons_append, sizeAll, ih]
    omega

/-- One turn of a walk: what is still to be visited, and the names found so far. -/
def turn : List Expr × List String → List Expr × List String
  | ([], found) => ([], found)
  | (e :: rest, found) => (e.parts ++ rest, found ++ e.ownNames)

/-- A walk goes on as after its first turn. -/
theorem walk_cons (e : Expr) (rest : List Expr) : walk (e :: rest) = e.ownNames ++ walk (e.parts ++ rest) := by
  simp only [walk_eq_namesAll, namesAll, namesAll_append, names_eq_parts e, List.append_assoc]

theorem walk_turn (s : List Expr × List String) : (turn s).2 ++ walk (turn s).1 = s.2 ++ walk s.1 := by
  obtain ⟨todo, found⟩ := s
  cases todo with
  | nil => rfl
  | cons e rest => simp only [turn, walk_cons, List.append_assoc]

theorem sizeAll_turn (s : List Expr × List String) : sizeAll (turn s).1 = sizeAll s.1 - 1 := by
  obtain ⟨todo, found⟩ := s
  cases todo with
  | nil => rfl
  | cons e rest =>
    simp only [turn, sizeAll_append, sizeAll, size_eq_parts e]
    omega

theorem sizeAll_eq_zero_iff (todo : List Expr) : sizeAll todo = 0 ↔ todo = [] := by
  cases todo with
  | nil => simp [sizeAll]
  | cons e rest =>
    simp only [sizeAll, size_eq_parts e, reduceCtorEq, iff_false]
    omega

variable (n : Nat) (s : List Expr × List String)

theorem walk_turns : (turn^[n] s).2 ++ walk (turn^[n] s).1 = s.2 ++ walk s.1 := by
  induction n with
  | zero => rfl
  | succ n ih => rw [Function.iterate_succ_apply', walk_turn, ih]

theorem sizeAll_turns : sizeAll (turn^[n] s).1 = sizeAll s.1 - n := by
  induction n with
  | zero => rfl
  | succ n ih =>
    rw [Function.iterate_succ_apply', sizeAll_turn, ih]
    omega

/-- A walk is over after as many turns as there are bodies, and no sooner. -/
theorem turns_eq_nil_iff (todo : List Expr) (found : List String) :
    (turn^[n] (todo, found)).1 = [] ↔ sizeAll todo ≤ n := by
  rw [← sizeAll_eq_zero_iff, sizeAll_turns, Nat.sub_eq_zero_iff_le]

theorem turns_eq (todo : List Expr) : turn^[sizeAll todo] (todo, []) = ([], walk todo) := by
  have hdone : (turn^[sizeAll todo] (todo, [])).1 = [] := (turns_eq_nil_iff _ todo []).2 le_rfl
  have hfound := walk_turns (sizeAll todo) (todo, [])
  rw [hdone, walk, List.append_nil, List.nil_append] at hfound
  exact Prod.ext hdone hfound

section Lookup

variable {m : Type → Type} [Monad m] {σ : Type}

/-- Looks names up one after the other, and keeps each with the answer. -/
def ask (lookup : String → m Bool) (names : List String) : m (List (String × Bool)) :=
  names.mapM fun name => (name, ·) <$> lookup name

/-- What was asked for in vain. -/
def inVain (referrer : String) (answers : List (String × Bool)) : List (String × Referrer) :=
  (answers.filter fun a => !a.2).map fun a => (a.1, .production referrer)

theorem recordAll_inVain_cons (l : MissingLedger) (referrer name : String) (found : Bool)
    (answers : List (String × Bool)) :
    l.recordAll (inVain referrer ((name, found) :: answers)) =
      (if found then l else l.record name (.production referrer)).recordAll (inVain referrer answers) := by
  cases found <;> rfl

variable [LawfulMonad m]

/-- Resolving a body asks for its names, and takes down those it asked for in vain. -/
theorem resolve_eq_ask (e : Expr) (referrer : String) (lookup : String → m Bool) (l : MissingLedger) :
    e.resolve referrer lookup l =
      (fun answers => l.recordAll (inVain referrer answers)) <$> ask lookup e.nonTerminals := by
  rw [resolve, ask]
  induction e.nonTerminals generalizing l with
  | nil => simp [inVain, MissingLedger.recordAll]
  | cons name rest ih =>
    rw [List.foldlM_cons, List.mapM_cons]
    simp only [bind_assoc, map_bind, bind_map_left, map_pure, recordAll_inVain_cons]
    refine bind_congr fun found => ?_
    cases found <;> simp [ih]

/-- The lookup, with a list of what it was asked for next to its own state. -/
def noted (lookup : String → StateM σ Bool) (name : String) : StateM (List String × σ) Bool :=
  fun (asked, s) =>
    let (found, s) := (lookup name).run s
    (found, asked ++ [name], s)

theorem run_ask_cons (lookup : String → StateM σ Bool) (name : String) (rest : List String) (s : σ) :
    (ask lookup (name :: rest)).run s =
      ((name, ((lookup name).run s).1) :: ((ask lookup rest).run ((lookup name).run s).2).1,
        ((ask lookup rest).run ((lookup name).run s).2).2) := by
  rw [ask, List.mapM_cons]
  rfl

theorem run_ask_noted (lookup : String → StateM σ Bool) (names asked : List String) (s : σ) :
    (ask (noted lookup) names).run (asked, s) =
      (((ask lookup names).run s).1, asked ++ names, ((ask lookup names).run s).2) := by
  induction names generalizing asked s with
  | nil =>
    rw [List.append_nil]
    rfl
  | cons name rest ih =>
    have hfirst : (noted lookup name).run (asked, s) =
        (((lookup name).run s).1, asked ++ [name], ((lookup name).run s).2) := rfl
    rw [run_ask_cons, run_ask_cons, hfirst, ih, List.append_assoc, List.singleton_append]

end Lookup

/-- The walk is over after as many turns as the body has bodies in it, and no
sooner, and it finds what recursion on the body finds. Whatever the lookup does
with its state, resolving the body asks it for these names, each once and in
order, and takes down those that it did not find. -/
theorem walk_finds_recursively (e : Expr) :
    turn^[e.size] ([e], []) = ([], e.names) ∧
    (∀ n < e.size, (turn^[n] ([e], [])).1 ≠ []) ∧
    e.nonTerminals = e.names ∧
    ∀ {σ : Type} (lookup : String → StateM σ Bool) (referrer : String) (l : MissingLedger),
      e.resolve referrer lookup l =
        (fun answers => l.recordAll (inVain referrer answers)) <$> ask lookup e.names ∧
      ∀ asked s, (e.resolve referrer (noted lookup) l).run (asked, s) =
        (((e.resolve referrer lookup l).run s).1, asked ++ e.names, ((e.resolve referrer lookup l).run s).2) := by
  have hsize : sizeAll [e] = e.size := by simp [sizeAll]
  refine ⟨?_, fun n hn => ?_, nonTerminals_eq_names e, fun lookup referrer l => ⟨?_, fun asked s => ?_⟩⟩
  · rw [← hsize, turns_eq, ← nonTerminals, nonTerminals_eq_names]
  · rw [ne_eq, turns_eq_nil_iff, hsize, Nat.not_le]
    exact hn
  · rw [resolve_eq_ask, nonTerminals_eq_names]
  · rw [resolve_eq_ask, resolve_eq_ask, nonTerminals_eq_names, StateT.run_map, StateT.run_map, run_ask_noted]
    rfl

/-- A choice with an empty sequence in it, between a name and an optional one. -/
example : turn^[5] ([alternatives [nonTerminal "a", sequence [], optional (nonTerminal "b")]], [])
    = ([], ["a", "b"]) := rfl

end Ebnf.Expr
