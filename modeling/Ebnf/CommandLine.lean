import Ebnf.Resolution
/-! The command line: which grammar to resolve and how, and what comes of it. -/

namespace Ebnf.CommandLine

structure Options where
  path : Option String
  rootless : Bool
  skipUnused : Bool
  sorted : Bool
  print : Bool
  deriving DecidableEq, Repr

def Options.none : Options := ⟨.none, false, false, false, false⟩

/-- The path, of which there is one and not an empty one. -/
def Options.setPath? (o : Options) (path : String) : Option Options :=
  if path = "" ∨ o.path.isSome then failure else some { o with path }

/-- Turns on a flag that is not on yet. -/
def Options.setFlag? (o : Options) : String → Option Options
  | "--rootless" => if o.rootless then failure else some { o with rootless := true }
  | "--skip-unused" => if o.skipUnused then failure else some { o with skipUnused := true }
  | "--sorted" => if o.sorted then failure else some { o with sorted := true }
  | "--print" => if o.print then failure else some { o with print := true }
  | _ => failure

/-- Reads arguments. A flag starts with a dash, a dash alone is a path, and
after two dashes everything is. -/
def parse : List String → Options → Option Options
  | [], o => some o
  | "--" :: rest, o => rest.foldlM Options.setPath? o
  | arg :: rest, o => do
    let isFlag := arg.toList.head? = some '-' && arg ≠ "-"
    parse rest (← if isFlag then o.setFlag? arg else o.setPath? arg)

/-- What a run leaves behind. -/
structure Outcome where
  exit : Nat
  stdout : String
  stderr : String
  deriving DecidableEq, Repr

def resolutionOptions (o : Options) : List ResolutionOption :=
  (if o.rootless then [.allowRootless] else []) ++ (if o.skipUnused then [.skipUnused] else [])

/-- Loads a grammar and resolves it. -/
def resolve (storage : Storage) (path : String) (o : Options) : Logged (Except GrammarError Grammar) := do
  match ← Table.load storage path with
  | .error e => return .error e
  | .ok t => t.resolve (if o.sorted then InsertionMap.sortKeys else id) (resolutionOptions o)

/-- What is printed about a grammar. -/
def report (o : Options) (g : Grammar) : String :=
  g.text ++ ": " ++ toString g.size ++ " productions\n"
    ++ if o.print then (g.write.rendering none).1 else ""

/-- The lines that a log echoes. -/
def echo (log : Log) : String := String.join (log.echoed.map (·.text ++ "\n"))

/-- Runs the program. There is no outcome to arguments that make no sense. -/
def run (storage : Storage) (args : List String) : Option Outcome := do
  let o ← parse args .none
  let path ← o.path
  let result := resolve storage path o
  let echoed := echo (Log.empty.pushAll result.entries)
  match result.value with
  | .ok g => return ⟨0, report o g, echoed⟩
  | .error e => return ⟨1, "", echoed ++ e.message ++ "\n"⟩

end Ebnf.CommandLine
