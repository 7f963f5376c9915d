import Ebnf.Defect
/-! A finite map that remembers the order in which its keys first arrived.
`get?_insert` and `keys_insert` say what a new binding does to the answers and
to the order. -/

namespace Ebnf

/-- Bindings in order of arrival. No key is bound twice. -/
structure InsertionMap (κ ν : Type) where
  entries : List (κ × ν)
  nodup_keys : (entries.map Prod.fst).Nodup

namespace InsertionMap

variable {κ ν : Type} [DecidableEq κ]

omit [DecidableEq κ] in
theorem ext_entries {m n : InsertionMap κ ν} (h : m.entries = n.entries) : m = n := by
  cases m; cases n; cases h; rfl

def empty : InsertionMap κ ν := ⟨[], List.nodup_nil⟩

instance : EmptyCollection (InsertionMap κ ν) := ⟨empty⟩

instance : Inhabited (InsertionMap κ ν) := ⟨empty⟩

def keys (m : InsertionMap κ ν) : List κ := m.entries.map Prod.fst

def values (m : InsertionMap κ ν) : List ν := m.entries.map Prod.snd

def size (m : InsertionMap κ ν) : Nat := m.entries.length

def isEmpty (m : InsertionMap κ ν) : Bool := m.entries.isEmpty

/-- The value of a key in a list of bindings, the first binding counting. -/
def find? (k : κ) : List (κ × ν) → Option ν
  | [] => none
  | e :: rest => if e.1 = k then some e.2 else find? k rest

def get? (m : InsertionMap κ ν) (k : κ) : Option ν := find? k m.entries

/-- A binding put into a list of bindings: in the place of the key's own
binding if there is one, at the end otherwise. -/
def put (k : κ) (v : ν) : List (κ × ν) → List (κ × ν)
  | [] => [(k, v)]
  | e :: rest => if e.1 = k then (e.1, v) :: rest else e :: put k v rest

theorem find?_put (k k' : κ) (v : ν) (l : List (κ × ν)) :
    find? k' (put k v l) = if k = k' then some v else find? k' l := by
  induction l with
  | nil => simp [put, find?]
  | cons e rest ih =>
    by_cases h : e.1 = k
    · subst h
      by_cases h' : e.1 = k' <;> simp [put, find?, h']
    · by_cases h' : e.1 = k'
      · subst h'
        simp [put, find?, h, Ne.symm h]
      · simp [put, find?, h, h', ih]

theorem map_fst_put (k : κ) (v : ν) (l : List (κ × ν)) :
    (put k v l).map Prod.fst = if k ∈ l.map Prod.fst then l.map Prod.fst else l.map Prod.fst ++ [k] := by
  induction l with
  | nil => simp [put]
  | cons e rest ih =>
    by_cases h : e.1 = k
    · simp [put, h]
    · have hne : ¬ k = e.1 := fun hk => h hk.symm
      rw [put, if_neg h, List.map_cons, ih]
      by_cases hm : k ∈ rest.map Prod.fst
      · rw [if_pos hm, if_pos (by simp only [List.map_cons, List.mem_cons]; exact Or.inr hm)]
        simp
      · rw [if_neg hm, if_neg (by simp only [List.map_cons, List.mem_cons, not_or]; exact ⟨hne, hm⟩)]
        simp

theorem nodup_put {k : κ} {v : ν} {l : List (κ × ν)} (h : (l.map Prod.fst).Nodup) :
    ((put k v l).map Prod.fst).Nodup := by
  rw [map_fst_put]
  split
  · exact h
  · next hk => exact List.nodup_append.2 ⟨h, by simp, by
      intro a ha b hb he
      simp only [List.mem_singleton] at hb
      exact hk (hb ▸ he ▸ ha)⟩

/-- Binds `k` to `v`. A key already bound keeps its place in the order. -/
def insert (m : InsertionMap κ ν) (k : κ) (v : ν) : InsertionMap κ ν :=
  ⟨put k v m.entries, nodup_put m.nodup_keys⟩

theorem get?_insert (m : InsertionMap κ ν) (k k' : κ) (v : ν) :
    (m.insert k v).get? k' = if k = k' then some v else m.get? k' :=
  find?_put k k' v m.entries

theorem keys_insert (m : InsertionMap κ ν) (k : κ) (v : ν) :
    (m.insert k v).keys = if k ∈ m.keys then m.keys else m.keys ++ [k] :=
  map_fst_put k v m.entries

/-- Binds `k` to `v`, and says what it was bound to before. -/
def exchange (m : InsertionMap κ ν) (k : κ) (v : ν) : Option ν × InsertionMap κ ν :=
  (m.get? k, m.insert k v)

/-- The value of a key that ought to be bound. -/
def get (m : InsertionMap κ ν) (location : String) (k : κ) : Except Defect ν :=
  Defect.expectSome location (some "OrderedMap: key not found") (m.get? k)

/-- Applies `f` to the value of `k`, if `k` is bound. -/
def modify (m : InsertionMap κ ν) (k : κ) (f : ν → ν) : InsertionMap κ ν :=
  match m.get? k with
  | some v => m.insert k (f v)
  | none => m

/-- The bindings of a list, put in one after the other: a repeated key keeps
its first place and its last value. -/
def ofList (l : List (κ × ν)) : InsertionMap κ ν :=
  l.foldl (fun m e => m.insert e.1 e.2) empty

/-- The map with its bindings in ascending order of their keys. -/
def sortKeys [LE κ] [DecidableLE κ] (m : InsertionMap κ ν) : InsertionMap κ ν :=
  ⟨m.entries.mergeSort (fun a b => decide (a.1 ≤ b.1)),
    ((List.mergeSort_perm _ _).map Prod.fst).nodup_iff.2 m.nodup_keys⟩

/-- Two maps agree if they bind the same number of keys and every binding of
the first is one of the second. The order of the bindings plays no part. -/
def same [DecidableEq ν] (m n : InsertionMap κ ν) : Bool :=
  m.size == n.size && m.entries.all fun e => decide (n.get? e.1 = some e.2)

instance [DecidableEq ν] : BEq (InsertionMap κ ν) := ⟨same⟩

end InsertionMap

end Ebnf
