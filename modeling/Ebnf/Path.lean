/-! Paths as text, their parts between slashes. Empty parts and single dots
stand for nothing, except that a path may start with either. -/

namespace Ebnf.Path

/-- The parts of a path, as lists of characters. -/
def split : List Char → List (List Char)
  | [] => [[]]
  | c :: rest =>
    if c = '/' then [] :: split rest
    else match split rest with
      | [] => [[c]]
      | part :: more => (c :: part) :: more

def parts (path : String) : List String := (split path.toList).map String.ofList

/-- Whether a part leads nowhere else. -/
def isVoid (part : String) : Bool := part = "" || part = "."

def isAbsolute (path : String) : Bool := path.toList.head? = some '/'

/-- The last part that leads somewhere, unless it leads upwards. -/
def fileName? (path : String) : Option String :=
  match ((parts path).filter (!isVoid ·)).getLast? with
  | some ".." => none
  | name => name

/-- What follows the last dot of a file name, provided that something else
comes before that dot. -/
def extension? (path : String) : Option String := do
  let name := (← fileName? path).toList.reverse
  let after := name.takeWhile (· ≠ '.')
  match name.drop after.length with
  | _ :: _ :: _ => some (String.ofList after.reverse)
  | _ => none

/-- Drops void parts from the front of a list, but never its last one. -/
def dropVoid : List String → List String
  | part :: next :: rest => if isVoid part then dropVoid (next :: rest) else part :: next :: rest
  | few => few

/-- The path of the directory that a path is in. -/
def parent (path : String) : String :=
  match dropVoid (dropVoid (parts path).reverse).tail with
  | [""] => "/"
  | dir => "/".intercalate dir.reverse

/-- A path as seen from a directory. -/
def join (base path : String) : String :=
  if isAbsolute path || base = "" then path
  else if base.toList.getLast? = some '/' then base ++ path
  else base ++ "/" ++ path

end Ebnf.Path
