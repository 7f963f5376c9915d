import Ebnf.Error
import Ebnf.Path
/-! Where documents come from. A `Storage` answers for every path, and a
`FileTree` is one that can be written down: the files and directories under a
directory that paths start from. -/

namespace Ebnf

/-- The text at a path, or why there is none. -/
abbrev Storage := String → Except ReadError String

/-- Files by the parts of their paths, and directories that are there whether
or not a file is in them. -/
structure FileTree where
  files : List (List String × ByteArray)
  directories : List (List String)

namespace FileTree

def isDirectory (t : FileTree) (place : List String) : Bool :=
  t.directories.any place.isPrefixOf ||
    t.files.any fun f => place.isPrefixOf f.1 && place.length < f.1.length

def file? (t : FileTree) (place : List String) : Option ByteArray :=
  (t.files.find? fun f => f.1 == place).map Prod.snd

/-- Where a path has led so far: to a directory or a file of the tree, or out
of it. -/
inductive Stop
  | directory (place : List String)
  | file (content : ByteArray)
  | outside

/-- The longest name of a file or directory, in bytes. -/
def longestName : Nat := 255

/-- Every path is shorter than this, in bytes. -/
def pathLimit : Nat := 4096

/-- Follows one part of a path. -/
def follow (t : FileTree) (stop : Stop) (part : String) : Except ReadError Stop :=
  match stop with
  | .file _ => .error .notADirectory
  | .outside =>
    if Path.isVoid part || part = ".." then .ok .outside
    else if longestName < part.utf8ByteSize then .error .nameTooLong
    else .error .notFound
  | .directory place =>
    if Path.isVoid part then .ok (.directory place)
    else if part = ".." then .ok (if place.isEmpty then .outside else .directory place.dropLast)
    else if longestName < part.utf8ByteSize then .error .nameTooLong
    else match t.file? (place ++ [part]) with
      | some content => .ok (.file content)
      | none =>
        if t.isDirectory (place ++ [part]) then .ok (.directory (place ++ [part]))
        else .error .notFound

/-- The bytes of the file that a path leads to. -/
def bytes (t : FileTree) (path : String) : Except ReadError ByteArray := do
  if '\x00' ∈ path.toList then throw .nulInName
  if path = "" then throw .notFound
  if pathLimit ≤ path.utf8ByteSize then throw .nameTooLong
  let start := if Path.isAbsolute path then .outside else .directory []
  match ← (Path.parts path).foldlM t.follow start with
  | .file content => return content
  | .directory _ | .outside => throw .isADirectory

/-- The storage a tree makes up. -/
def storage (t : FileTree) : Storage := fun path => do
  match String.fromUTF8? (← t.bytes path) with
  | some text => return text
  | none => throw .notUtf8

end FileTree

end Ebnf
