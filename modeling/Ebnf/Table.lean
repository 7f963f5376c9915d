import Ebnf.Log
import Ebnf.NameIndex
import Ebnf.Vocabulary
/-! Grammars that are being put together. A table takes productions in order
and refuses a name that is taken; `Assembly` is work on a table that stops at
the first error and keeps what was added until then. -/

namespace Ebnf

/-- The productions of a grammar, as far as it is put together. Each is found
under its own name and has a tag. -/
structure Table where
  language : String
  caseSensitive : Bool
  productions : NameIndex Production
  language_ne : language ≠ ""
  keyed : ∀ e ∈ productions.entries, e.2.name = e.1
  tagged : ∀ e ∈ productions.entries, e.2.vocabulary.isSome

namespace Table

def new (language : String) (caseSensitive : Bool) : Except GrammarError Table :=
  if h : language = "" then .error .emptyLanguage
  else .ok ⟨language, caseSensitive, ∅, h, by simp, by simp⟩

def get? (t : Table) (name : String) : Option Production := t.productions.find? name

def toList (t : Table) : List Production := t.productions.values

def size (t : Table) : Nat := t.productions.size

def isEmpty (t : Table) : Bool := t.productions.isEmpty

theorem keyed_insert {t : Table} {p : Production} {id : Nat} {ps : NameIndex Production}
    (h : t.productions.insert p.name p = .ok (id, ps)) : ∀ e ∈ ps.entries, e.2.name = e.1 := by
  intro e he
  rw [(NameIndex.of_insert_eq_ok h).2.2, List.mem_append, List.mem_singleton] at he
  rcases he with he | rfl
  · exact t.keyed e he
  · rfl

theorem tagged_insert {t : Table} {p : Production} {id : Nat} {ps : NameIndex Production}
    (hp : p.vocabulary.isSome) (h : t.productions.insert p.name p = .ok (id, ps)) :
    ∀ e ∈ ps.entries, e.2.vocabulary.isSome := by
  intro e he
  rw [(NameIndex.of_insert_eq_ok h).2.2, List.mem_append, List.mem_singleton] at he
  rcases he with he | rfl
  · exact t.tagged e he
  · exact hp

/-- Puts a production at the end, or hands back its name if that is taken. One without a tag
gets the language of the table. -/
def insert (t : Table) (p : Production) : Except String Table :=
  match h : t.productions.insert p.name (p.tagged t.language) with
  | .error name => .error name
  | .ok (_, ps) => .ok { t with
    productions := ps
    keyed := keyed_insert (p := p.tagged t.language) h
    tagged := tagged_insert (p := p.tagged t.language) rfl h }

end Table

/-- Work on a table. An error ends it, and what was added before stays. -/
abbrev Assembly := ExceptT GrammarError (StateT Table Logged)

namespace Assembly

def note (level : Log.Level) (message : String) : Assembly Unit := Logged.log level message

/-- Adds a production. A name that is taken is logged, and ends the work. -/
def add (p : Production) : Assembly Unit := do
  match (← get).insert p with
  | .ok t => set t
  | .error name =>
    note .error ("Duplicate definition of '" ++ name ++ "' production")
    throw (.duplicateDefinition name)

def addAll (ps : List Production) : Assembly Unit := ps.forM add

/-- Takes over the productions of a vocabulary, up to the first whose name is taken. -/
def merge (v : Vocabulary) : Assembly Unit := do
  let ps ← MonadExcept.ofExcept v.productions
  note .info ("Merging " ++ toString ps.length ++ " productions from vocabulary '" ++ v.name
    ++ "' into '" ++ (← get).language ++ "'")
  addAll ps

/-- The table after some work, and the error that ended it. -/
def on (work : Assembly Unit) (t : Table) : Logged (Table × Option GrammarError) := do
  match ← work.run.run t with
  | (.ok (), t) => return (t, none)
  | (.error e, t) => return (t, some e)

/-- Takes over the productions of a document, and then its vocabularies. -/
def document (storage : Storage) (spec : GrammarSpec) (base : String) : Assembly Unit := do
  addAll (spec.productions.map (·.toProduction (some spec.language)))
  spec.vocabularies.forM fun path => merge (.file storage (Path.join base path))

end Assembly

namespace Table

/-- The table of a document whose vocabularies are seen from `base`. -/
def ofSpec (storage : Storage) (spec : GrammarSpec) (base : String) :
    Logged (Except GrammarError Table) := do
  match new spec.language spec.caseSensitive with
  | .error e => return .error e
  | .ok t =>
    match ← (Assembly.document storage spec base).on t with
    | (t, none) => return .ok t
    | (_, some e) => return .error e

/-- The table of the document at `path`. -/
def load (storage : Storage) (path : String) : Logged (Except GrammarError Table) :=
  match Document.load storage path with
  | .error e => return .error e
  | .ok spec => ofSpec storage spec (Path.parent path)

end Table

end Ebnf
