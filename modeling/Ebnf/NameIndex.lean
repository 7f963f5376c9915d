/-! Named values numbered in order of arrival. A name is taken once and for
all: its number and its value never change, and the numbers run from `0`
without a gap. -/

namespace Ebnf

/-- Named values; the number of a name is its position. No name occurs twice. -/
structure NameIndex (α : Type) where
  entries : List (String × α)
  nodup_names : (entries.map Prod.fst).Nodup

namespace NameIndex

variable {α : Type}

def empty : NameIndex α := ⟨[], List.nodup_nil⟩

instance : EmptyCollection (NameIndex α) := ⟨empty⟩

instance : Inhabited (NameIndex α) := ⟨empty⟩

@[simp] theorem entries_empty : (∅ : NameIndex α).entries = [] := rfl

def names (m : NameIndex α) : List String := m.entries.map Prod.fst

def values (m : NameIndex α) : List α := m.entries.map Prod.snd

def size (m : NameIndex α) : Nat := m.entries.length

def isEmpty (m : NameIndex α) : Bool := m.entries.isEmpty

/-- The numbers given out so far. -/
def ids (m : NameIndex α) : List Nat := List.range m.size

/-- The number of a name. -/
def id? (m : NameIndex α) (name : String) : Option Nat := m.names.idxOf? name

/-- The value with a number. -/
def value? (m : NameIndex α) (id : Nat) : Option α := m.values[id]?

/-- The value of a name. -/
def find? (m : NameIndex α) (name : String) : Option α := (m.id? name).bind m.value?

/-- Appends a named value and gives it the next number, or hands back a name
that is taken. -/
def insert (m : NameIndex α) (name : String) (value : α) : Except String (Nat × NameIndex α) :=
  if h : name ∈ m.names then .error name
  else .ok (m.size, ⟨m.entries ++ [(name, value)], by
    rw [List.map_append]
    exact List.nodup_append.2 ⟨m.nodup_names, by simp, by
      intro a ha b hb he
      simp only [List.map_cons, List.map_nil, List.mem_singleton] at hb
      exact h (hb ▸ he ▸ ha)⟩⟩)

theorem insert_eq_error_iff (m : NameIndex α) (name taken : String) (value : α) :
    m.insert name value = .error taken ↔ name = taken ∧ name ∈ m.names := by
  unfold insert
  split
  · next h => simp [h]
  · next h => simp [h]

theorem of_insert_eq_ok {m n : NameIndex α} {name : String} {value : α} {id : Nat}
    (h : m.insert name value = .ok (id, n)) :
    name ∉ m.names ∧ id = m.size ∧ n.entries = m.entries ++ [(name, value)] := by
  unfold insert at h
  split at h
  · cases h
  · next hn =>
    cases h
    exact ⟨hn, rfl, rfl⟩

end NameIndex

end Ebnf
