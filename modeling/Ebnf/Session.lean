import Ebnf.Resolution
/-! Work on several tables and grammars under names, with one log. Each command
gets one answer, and a command that fails changes nothing but what its answer
tells. -/

namespace Ebnf

inductive Command
  | new (table language : String) (caseSensitive : Bool)
  | load (table path : String)
  | fromSpec (table : String) (spec : GrammarSpec) (base : String)
  | copy (table target : String)
  | add (table : String) (p : Production)
  | merge (table : String) (v : Vocabulary)
  | get (table name : String)
  | table (table : String)
  | resolve (table grammar : String) (arrange : ProductionMap → ProductionMap)
      (options : List ResolutionOption)
  | grammar (grammar : String)
  | production (grammar name : String)
  | description (grammar name : String)
  | render (grammar : String) (limit : Option Nat)
  | visit (grammar : String) (failOn : Option String)
  | compare (a b : String)
  | settle (requests : List (String × Referrer))
  | push (entry : Log.Entry)
  | drain
  | messagesAt (level : Log.Level)
  | logText

inductive Answer
  | done
  | size (n : Nat)
  /-- An error, and the size of the table if it was to be changed. -/
  | failed (e : GrammarError) (size : Option Nat)
  | production (p : Option Production)
  | description (d : Option String)
  | table (t : Table)
  | resolved (g : Grammar)
  | grammar (g : Grammar)
  | rendering (text : String) (complete : Bool)
  | visited (names : List String) (refused : Option String)
  | compared (same sameHash : Bool)
  | entries (es : List Log.Entry)
  | messages (ms : List String)
  | text (text : String)
  | noTable (name : String)
  | noGrammar (name : String)

/-- The tables and grammars by name, and the log. -/
structure Session where
  tables : String → Option Table
  grammars : String → Option Grammar
  log : Log

namespace Session

def empty : Session := ⟨fun _ => none, fun _ => none, ∅⟩

instance : EmptyCollection Session := ⟨empty⟩

/-- What names stand for, after `name` got another value or lost the one it had. -/
def update {α : Type} (names : String → Option α) (name : String) (value : Option α) :
    String → Option α :=
  fun n => if n = name then value else names n

def setTable (s : Session) (name : String) (t : Option Table) : Session :=
  { s with tables := update s.tables name t }

def setGrammar (s : Session) (name : String) (g : Grammar) : Session :=
  { s with grammars := update s.grammars name (some g) }

/-- Keeps a table that could be made, and leaves things as they are otherwise. -/
def keep (s : Session) (name : String) (work : Logged (Except GrammarError Table)) :
    Logged (Session × Answer) := do
  match ← work with
  | .ok t => return (s.setTable name t, .size t.size)
  | .error e => return (s, .failed e none)

/-- Does some work on a table of the session. -/
def change (s : Session) (name : String) (work : Assembly Unit) : Logged (Session × Answer) := do
  match s.tables name with
  | none => return (s, .noTable name)
  | some t =>
    match ← work.on t with
    | (t, none) => return (s.setTable name t, .size t.size)
    | (t, some e) => return (s.setTable name t, .failed e (some t.size))

/-- Resolves a table, which is gone afterwards. -/
def resolve (s : Session) (table grammar : String) (arrange : ProductionMap → ProductionMap)
    (options : List ResolutionOption) : Logged (Session × Answer) := do
  match s.tables table with
  | none => return (s, .noTable table)
  | some t =>
    match ← t.resolve arrange options with
    | .ok g => return ((s.setTable table none).setGrammar grammar g, .resolved g)
    | .error e => return (s.setTable table none, .failed e none)

/-- Reports names that were asked for in vain. -/
def settle (requests : List (String × Referrer)) : Logged Answer := do
  match ← (MissingLedger.ofList requests).settle with
  | .ok () => return .done
  | .error e => return .failed e none

def withTable (s : Session) (name : String) (answer : Table → Answer) : Answer :=
  (s.tables name).elim (.noTable name) answer

def withGrammar (s : Session) (name : String) (answer : Grammar → Answer) : Answer :=
  (s.grammars name).elim (.noGrammar name) answer

def describe (name : String) (g : Grammar) : Answer :=
  match g.description name with
  | .ok d => .description d
  | .error e => .failed e none

def render (limit : Option Nat) (g : Grammar) : Answer :=
  let r := g.write.rendering limit
  .rendering r.1 r.2

/-- Collects the names of productions, and refuses to go on at the name `failOn`. -/
def collect (failOn : Option String) (p : Production) : ExceptT String (StateM (List String)) Unit :=
  if failOn = some p.name then throw ("refusing " ++ p.name) else modify (· ++ [p.name])

def visit (failOn : Option String) (g : Grammar) : Answer :=
  match (g.accept (collect failOn)).run.run [] with
  | (.ok (), names) => .visited names none
  | (.error e, names) => .visited names (some e)

def compare (s : Session) (a b : String) : Answer :=
  match s.grammars a, s.grammars b with
  | none, _ => .noGrammar a
  | _, none => .noGrammar b
  | some g, some h => .compared (g == h) (hash g == hash h)

/-- Follows a command. What it logs is not in the log yet. -/
def perform (storage : Storage) (s : Session) : Command → Logged (Session × Answer)
  | .new table language caseSensitive => s.keep table (pure (Table.new language caseSensitive))
  | .load table path => s.keep table (Table.load storage path)
  | .fromSpec table spec base => s.keep table (Table.ofSpec storage spec base)
  | .copy table target => pure <|
    match s.tables table with
    | none => (s, .noTable table)
    | some t => (s.setTable target t, .done)
  | .add table p => s.change table (Assembly.add p)
  | .merge table v => s.change table (Assembly.merge v)
  | .get table name => pure (s, s.withTable table fun t => .production (t.get? name))
  | .table table => pure (s, s.withTable table .table)
  | .resolve table grammar arrange options => s.resolve table grammar arrange options
  | .grammar grammar => pure (s, s.withGrammar grammar .grammar)
  | .production grammar name =>
    pure (s, s.withGrammar grammar fun g => .production (g.production? name))
  | .description grammar name => pure (s, s.withGrammar grammar (describe name))
  | .render grammar limit => pure (s, s.withGrammar grammar (render limit))
  | .visit grammar failOn => pure (s, s.withGrammar grammar (visit failOn))
  | .compare a b => pure (s, s.compare a b)
  | .settle requests => do return (s, ← settle requests)
  | .push entry => do
    Logged.log entry.level entry.message
    return (s, .done)
  | .drain => pure ({ s with log := s.log.drain.2 }, .entries s.log.drain.1)
  | .messagesAt level => pure (s, .messages (s.log.messagesAt level))
  | .logText => pure (s, .text s.log.text)

/-- Follows a command and keeps what it logs. -/
def step (storage : Storage) (s : Session) (c : Command) : Session × Answer :=
  let work := s.perform storage c
  ({ work.value.1 with log := work.value.1.log.pushAll work.entries }, work.value.2)

/-- Follows commands one after the other. -/
def run (storage : Storage) (s : Session) : List Command → Session × List Answer
  | [] => (s, [])
  | c :: rest =>
    let (s, answer) := s.step storage c
    let (s, answers) := run storage s rest
    (s, answer :: answers)

end Session

end Ebnf
