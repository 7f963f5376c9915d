import Ebnf.InsertionMap
/-! Named values kept in two places: the numbers of the names in one, and the values in
the order of their numbers in the other. Nothing in the type holds the two together, so a
look-up says so when it goes astray. -/

namespace Ebnf

/-- A name or a number that leads to no value. `size` is the number of values there are. -/
inductive Astray
  | name (name : String)
  | number (id size : Nat)
  deriving DecidableEq, Repr

structure Register (α : Type) where
  numbers : InsertionMap String Nat
  values : List α

namespace Register

variable {α : Type}

def empty : Register α := ⟨∅, []⟩

instance : EmptyCollection (Register α) := ⟨empty⟩

instance : Inhabited (Register α) := ⟨empty⟩

/-- Takes in a named value under the next number, or hands back a name that is taken. -/
def insert (r : Register α) (name : String) (value : α) : Except String Nat × Register α :=
  if (r.numbers.get? name).isSome then (.error name, r)
  else (.ok r.values.length, ⟨r.numbers.insert name r.values.length, r.values ++ [value]⟩)

/-- The number of a name. -/
def id? (r : Register α) (name : String) : Option Nat := r.numbers.get? name

/-- The value with a number. -/
def value? (r : Register α) (id : Nat) : Option α := r.values[id]?

/-- The value with a number that ought to have one. -/
def get (r : Register α) (id : Nat) : Except Astray α :=
  match r.values[id]? with
  | some value => .ok value
  | none => .error (.number id r.values.length)

/-- The value of a name that ought to be there. -/
def named (r : Register α) (name : String) : Except Astray α :=
  match r.numbers.get? name with
  | some id => r.get id
  | none => .error (.name name)

/-- The value of a name, if the name is there. Its number ought to have a value then. -/
def find? (r : Register α) (name : String) : Except Astray (Option α) :=
  match r.numbers.get? name with
  | some id => some <$> r.get id
  | none => .ok none

def size (r : Register α) : Nat := r.values.length

def isEmpty (r : Register α) : Bool := r.values.isEmpty

/-- The numbers given out so far. -/
def ids (r : Register α) : List Nat := List.range r.values.length

/-- Takes in named values one after the other, and collects the replies. -/
def insertAll (r : Register α) : List (String × α) → List (Except String Nat) × Register α
  | [] => ([], r)
  | e :: rest =>
    let next := r.insert e.1 e.2
    let final := next.2.insertAll rest
    (next.1 :: final.1, final.2)

end Register

end Ebnf
