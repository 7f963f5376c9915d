/-! What a document format has to be able to read. The shape of a document is
described once, by `Record`s and `Variant`s, and every format reads it in its
own way. -/

namespace Ebnf

/-- What a record goes by in messages. A variant with fields is a record too. -/
inductive Title
  | named (name : String)
  | variant (type name : String)
  deriving DecidableEq, Repr

/-- One field of a record whose half-read form is `σ`: whether it was read
already, and how to read it. -/
structure Field (m : Type → Type) (σ : Type) where
  name : String
  taken : σ → Bool
  read : m (σ → σ)

/-- A record read field by field. `finish` names the first field that is
missing, if one is. -/
structure Record (m : Type → Type) (σ α : Type) where
  title : Title
  blank : σ
  fields : List (Field m σ)
  finish : σ → Except String α

namespace Record

variable {m : Type → Type} {σ α : Type}

def names (r : Record m σ α) : List String := r.fields.map Field.name

def field? (r : Record m σ α) (name : String) : Option (Field m σ) := r.fields.find? (·.name == name)

end Record

/-- What follows the name of a variant: nothing, a value, or fields. -/
inductive Payload (m : Type → Type) (α : Type)
  | bare (value : α)
  | value (read : m α)
  | fields (read : m α)

structure Variant (m : Type → Type) (α : Type) where
  name : String
  payload : Unit → Payload m α

class Source (m : Type → Type) [Monad m] where
  string : m String
  boolean : m Bool
  /-- Reads a number below `2 ^ 64`. -/
  natural : m UInt64
  optional {α : Type} : m α → m (Option α)
  list {α : Type} : m α → m (List α)
  record {σ α : Type} : Record m σ α → m α
  /-- Reads one of the variants of a named type. -/
  choice {α : Type} : String → List (Variant m α) → m α
  /-- Refuses what is nested too deep. -/
  tooDeep {α : Type} : m α

/-- The value of a field that has no default. -/
def Field.need {α : Type} (name : String) : Option α → Except String α
  | some a => .ok a
  | none => .error name

/-- A field kept as an optional value until the record is finished. -/
def Field.of {m : Type → Type} [Monad m] {σ τ : Type} (name : String) (get : σ → Option τ)
    (set : τ → σ → σ) (read : m τ) : Field m σ :=
  ⟨name, fun s => (get s).isSome, set <$> read⟩

end Ebnf
