/-! The bodies of productions. Equality of bodies is decidable, and the names a
body refers to are found by one walk with a list of what is still to be
visited; `names` says by recursion on the body what that walk should find. -/

namespace Ebnf

/-- The body of a production. Character sets and the names of other productions
are opaque here. -/
inductive Expr
  | epsilon
  | literal (text : String)
  | characterSet (name : String)
  | nonTerminal (name : String)
  | sequence (parts : List Expr)
  | alternatives (branches : List Expr)
  | optional (body : Expr)
  | repetition (min : UInt64) (max : Option UInt64) (body : Expr)
  deriving Repr, Inhabited

namespace Expr

mutual

/-- Whether two bodies are the same. -/
def same : Expr → Expr → Bool
  | epsilon, epsilon => true
  | literal a, literal b => a == b
  | characterSet a, characterSet b => a == b
  | nonTerminal a, nonTerminal b => a == b
  | sequence a, sequence b => sameAll a b
  | alternatives a, alternatives b => sameAll a b
  | optional a, optional b => same a b
  | repetition m n a, repetition m' n' b => m == m' && n == n' && same a b
  | _, _ => false

/-- Whether two lists of bodies are the same. -/
def sameAll : List Expr → List Expr → Bool
  | [], [] => true
  | a :: as, b :: bs => same a b && sameAll as bs
  | _, _ => false

end

mutual

theorem same_iff (a b : Expr) : same a b = true ↔ a = b := by
  cases a <;> cases b <;> simp [same, same_iff, sameAll_iff, and_assoc]

theorem sameAll_iff (as bs : List Expr) : sameAll as bs = true ↔ as = bs := by
  cases as <;> cases bs <;> simp [sameAll, same_iff, sameAll_iff]

end

instance : DecidableEq Expr := fun a b => decidable_of_iff _ (same_iff a b)

mutual

/-- The names a body refers to, from left to right, each as often as it occurs. -/
def names : Expr → List String
  | epsilon | literal _ | characterSet _ => []
  | nonTerminal name => [name]
  | sequence parts | alternatives parts => namesAll parts
  | optional body | repetition _ _ body => names body

/-- The names a list of bodies refers to. -/
def namesAll : List Expr → List String
  | [] => []
  | e :: rest => names e ++ namesAll rest

end

theorem sizeOf_append_le (as bs : List Expr) : sizeOf (as ++ bs) ≤ sizeOf as + sizeOf bs := by
  induction as with
  | nil => simp
  | cons a as ih => simp only [List.cons_append, List.cons.sizeOf_spec]; omega

/-- Visits the bodies of a list one after the other, putting the parts of each
in front of those still to be visited. -/
def walk : List Expr → List String
  | [] => []
  | nonTerminal name :: rest => name :: walk rest
  | sequence parts :: rest | alternatives parts :: rest => walk (parts ++ rest)
  | optional body :: rest | repetition _ _ body :: rest => walk (body :: rest)
  | _ :: rest => walk rest
  termination_by todo => sizeOf todo
  decreasing_by
    all_goals simp_wf
    all_goals first
      | omega
      | have := sizeOf_append_le parts rest
        omega

/-- The names a body refers to, in order of appearance. -/
def nonTerminals (e : Expr) : List String := walk [e]

end Expr

end Ebnf
