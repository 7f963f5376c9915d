/-! Diagnostics. A log keeps the newest entries, up to a fixed number, and every
warning is echoed when it arrives. `Logged` is a value together with the
entries that making it produced. -/

namespace Ebnf

namespace Log

inductive Level
  | trace
  | debug
  | info
  | warn
  | error
  deriving DecidableEq, Repr

namespace Level

def all : List Level := [trace, debug, info, warn, error]

def name : Level → String
  | trace => "Trace"
  | debug => "Debug"
  | info => "Info"
  | warn => "Warn"
  | error => "Error"

def ofName? (name : String) : Option Level := all.find? (·.name == name)

/-- The place of a level, the least urgent first. -/
def rank : Level → Nat
  | trace => 0
  | debug => 1
  | info => 2
  | warn => 3
  | error => 4

instance : Ord Level := ⟨fun a b => compare a.rank b.rank⟩

instance : LE Level := ⟨fun a b => a.rank ≤ b.rank⟩

instance : LT Level := ⟨fun a b => a.rank < b.rank⟩

end Level

structure Entry where
  level : Level
  message : String
  deriving DecidableEq, Repr

/-- The level in brackets, filled up to a column of seven, then the message. -/
def Entry.text (e : Entry) : String :=
  let tag := "[" ++ e.level.name ++ "]"
  tag ++ String.ofList (List.replicate (7 - tag.length) ' ') ++ " " ++ e.message

/-- The number of entries a log keeps. -/
def capacity : Nat := 1024

end Log

/-- The newest entries, the oldest of them first, and all the warnings echoed
so far. -/
structure Log where
  entries : List Log.Entry
  echoed : List Log.Entry
  length_le : entries.length ≤ Log.capacity

namespace Log

def empty : Log := ⟨[], [], Nat.zero_le _⟩

instance : EmptyCollection Log := ⟨empty⟩

instance : Inhabited Log := ⟨empty⟩

/-- Adds an entry. A full log drops its oldest one. -/
def push (log : Log) (e : Entry) : Log where
  entries := log.entries.drop (log.entries.length + 1 - capacity) ++ [e]
  echoed := if e.level = .warn then log.echoed ++ [e] else log.echoed
  length_le := by
    have := log.length_le
    simp only [List.length_append, List.length_drop, List.length_singleton, capacity] at *
    omega

def pushAll (log : Log) (es : List Entry) : Log := es.foldl push log

/-- The entries, and the log without them. -/
def drain (log : Log) : List Entry × Log :=
  (log.entries, ⟨[], log.echoed, Nat.zero_le _⟩)

/-- The messages logged at exactly `level`. -/
def messagesAt (log : Log) (level : Level) : List String :=
  (log.entries.filter (·.level = level)).map Entry.message

/-- One line for every entry. -/
def text (log : Log) : String :=
  String.join (log.entries.map (·.text ++ "\n"))

end Log

/-- A value and the entries logged on the way to it, oldest first. -/
structure Logged (α : Type) where
  value : α
  entries : List Log.Entry

namespace Logged

instance : Monad Logged where
  pure a := ⟨a, []⟩
  bind x f := ⟨(f x.value).value, x.entries ++ (f x.value).entries⟩

/-- Logs one message. -/
def log (level : Log.Level) (message : String) : Logged Unit := ⟨(), [⟨level, message⟩]⟩

end Logged

end Ebnf
