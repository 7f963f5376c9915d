import Ebnf.CommandLine
/-! The program. It reads the grammar document and its vocabularies, and leaves
the rest to `CommandLine.run`. -/

namespace Ebnf

/-- What kept a file from being read. -/
def ReadError.ofIO : IO.Error → ReadError
  | .noFileOrDirectory _ _ _ => .notFound
  | .inappropriateType _ 21 _ => .isADirectory
  | .inappropriateType _ _ _ => .notADirectory
  | .invalidArgument _ 22 _ => .nulInName
  | .invalidArgument _ _ _ => .nameTooLong
  | e => .other (toString e)

def readText (path : String) : IO (Except ReadError String) := do
  try
    match String.fromUTF8? (← IO.FS.readBinFile path) with
    | some text => return .ok text
    | none => return .error .notUtf8
  catch e => return .error (.ofIO e)

/-- A storage of the texts read for some paths. -/
def storageOf (texts : List (String × Except ReadError String)) : Storage := fun path =>
  (texts.lookup path).getD (.error .notFound)

/-- Reads a grammar document and the vocabularies it names. -/
def readStorage (path : String) : IO Storage := do
  let grammar := (path, ← readText path)
  match Document.load (storageOf [grammar]) path with
  | .error _ => return storageOf [grammar]
  | .ok (spec : GrammarSpec) =>
    let vocabularies ← spec.vocabularies.mapM fun v => do
      let path := Path.join (Path.parent path) v
      return (path, ← readText path)
    return storageOf (grammar :: vocabularies)

end Ebnf

def main (args : List String) : IO UInt32 := do
  let path := ((Ebnf.CommandLine.parse args .none).bind (·.path)).getD ""
  match Ebnf.CommandLine.run (← Ebnf.readStorage path) args with
  | some outcome =>
    IO.print outcome.stdout
    IO.eprint outcome.stderr
    return outcome.exit.toUInt32
  | none =>
    IO.eprintln "Usage: [--rootless] [--skip-unused] [--sorted] [--print] <GRAMMAR>"
    return 2
