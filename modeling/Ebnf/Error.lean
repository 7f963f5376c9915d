import Ebnf.Missing
/-! What can go wrong between a document and a grammar, and how it is told. -/

namespace Ebnf

/-- Why a file could not be read as text. -/
inductive ReadError
  | notFound
  | notADirectory
  | isADirectory
  | nameTooLong
  | nulInName
  | notUtf8
  | other (text : String)
  deriving DecidableEq, Repr

def ReadError.text : ReadError → String
  | notFound => "No such file or directory (os error 2)"
  | notADirectory => "Not a directory (os error 20)"
  | isADirectory => "Is a directory (os error 21)"
  | nameTooLong => "File name too long (os error 36)"
  | nulInName => "file name contained an unexpected NUL byte"
  | notUtf8 => "stream did not contain valid UTF-8"
  | other text => text

/-- A row and a column of a document, both counted from zero. -/
structure Place where
  row : Nat
  column : Nat
  deriving DecidableEq, Repr

namespace Place

/-- A place as a reader counts, from one. -/
def text (p : Place) : String := toString (p.row + 1) ++ ":" ++ toString (p.column + 1)

end Place

inductive GrammarError
  | emptyLanguage
  | duplicateDefinition (name : String)
  | missingProductions (report : MissingReport)
  | productionNotFound (name : String)
  | unreadable (path : String) (cause : ReadError)
  | malformed (path : String) (place : Option Place) (fault : String)
  | unknownFormat (path : String)
  deriving DecidableEq, Repr

namespace GrammarError

def message : GrammarError → String
  | emptyLanguage => "Grammar language name must not be empty"
  | duplicateDefinition name => "Duplicate definition of '" ++ name ++ "' production"
  | missingProductions report => report.text
  | productionNotFound name => "No production named '" ++ name ++ "' in the grammar"
  | unreadable path cause => "Failed to read '" ++ path ++ "': " ++ cause.text
  | malformed path place fault =>
    "Parse error in '" ++ path ++ "'" ++ place.elim "" (" at " ++ ·.text) ++ ": " ++ fault
  | unknownFormat path =>
    "Unknown document format for '" ++ path ++ "': expected a .ron or .json file"

end GrammarError

end Ebnf
