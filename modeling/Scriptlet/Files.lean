/-!
# Files

A script may be given by the path of its file. A path is walked name by name, from the root or from
the current directory, and the first step that cannot be taken says why the file cannot be read.
-/

namespace Scriptlet

/-- What stands at a place. -/
inductive Place where
  | directory
  | file (content : String)
deriving DecidableEq

/-- The files of a machine. A place is known by the names on the way to it from the root; `current`
is the way to the current directory. -/
structure FileTree where
  places : List (List String × Place)
  current : List String

/-- Why a path leads to no text. -/
inductive PathError where
  | missing | notDirectory | isDirectory | nameTooLong
deriving DecidableEq

namespace PathError

/-- The number of the error on the machine. -/
def code : PathError → Nat
  | missing => 2
  | notDirectory => 20
  | isDirectory => 21
  | nameTooLong => 36

/-- What is wrong. -/
def cause : PathError → String
  | missing => "No such file or directory"
  | notDirectory => "Not a directory"
  | isDirectory => "Is a directory"
  | nameTooLong => "File name too long"

/-- The message of the error. -/
def text (e : PathError) : String := s!"{e.cause} (os error {e.code})"

end PathError

namespace FileTree

/-- The greatest number of bytes in a name. -/
def maxName : Nat := 255

/-- The greatest number of bytes in a path. -/
def maxPath : Nat := 4095

/-- What stands at the end of a way, if anything does. The root is always there. -/
def place? (t : FileTree) (way : List String) : Option Place :=
  if way.isEmpty then some .directory else t.places.lookup way

/-- One step from a place. A point and an empty name stay there, two points lead back. -/
def step (t : FileTree) (way : List String) (name : String) : Except PathError (List String) :=
  if t.place? way ≠ some .directory then .error .notDirectory
  else if name == "" || name == "." then .ok way
  else if name == ".." then .ok way.dropLast
  else if maxName < name.utf8ByteSize then .error .nameTooLong
  else if (t.place? (way ++ [name])).isNone then .error .missing
  else .ok (way ++ [name])

/-- The text of the file that a path leads to. -/
def read (t : FileTree) (path : String) : Except PathError String := do
  if path.isEmpty then throw .missing
  if maxPath < path.utf8ByteSize then throw .nameTooLong
  let start := if path.startsWith "/" then [] else t.current
  let way ← (path.splitOn "/").foldlM t.step start
  match t.place? way with
  | some (.file content) => return content
  | some .directory => throw .isDirectory
  | none => throw .missing

end FileTree

end Scriptlet
