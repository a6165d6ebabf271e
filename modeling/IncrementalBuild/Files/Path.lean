/-!
# File paths

A path is a `String`; two strings name one path when their parts agree. Repeated and
trailing slashes, and `.` after the first part, add no part; `..` is a part like any
other and is not resolved. Whoever follows a path goes by its pieces instead, because a
`.` or a slash at the end can only follow a directory.
-/

set_option autoImplicit false

namespace IncrementalBuild.Path

/-- A part of a path. -/
inductive Part where
  | root
  | current
  | parent
  | entry (name : String)
  deriving DecidableEq

/-- The part a piece between slashes adds; `leading` says that the piece starts a path
without a root. -/
def Part.ofPiece? (leading : Bool) (piece : String) : Option Part :=
  match piece with
  | "" => none
  | "." => if leading then some .current else none
  | ".." => some .parent
  | name => some (.entry name)

/-- The parts of a path, from the outermost on. -/
def parts (path : String) : List Part :=
  match path.splitOn "/" with
  | "" :: rest@(_ :: _) => .root :: rest.filterMap (Part.ofPiece? false)
  | first :: rest => (Part.ofPiece? true first).toList ++ rest.filterMap (Part.ofPiece? false)
  | [] => []

/-- What stands between the slashes of a path, dots included. -/
def pieces (path : String) : List String := (path.splitOn "/").filter (· != "")

/-- Whether two strings name one path. -/
def same (a b : String) : Bool := parts a == parts b

/-- Whether a path starts at the root. -/
def isAbsolute (path : String) : Bool := path.startsWith "/"

/-- A path read in a directory: an absolute one stands for itself, any other goes after
the directory and a slash, of which none is doubled. -/
def join (dir path : String) : String :=
  if isAbsolute path then path
  else if dir.isEmpty || dir.endsWith "/" then dir ++ path
  else dir ++ "/" ++ path

/-- The name of the file or directory a path leads to. -/
def fileName? (path : String) : Option String :=
  match (parts path).getLast? with
  | some (.entry name) => some name
  | _ => none

/-- The name of the file without its extension: all before the last dot, unless that dot
is the only one and the name starts with it. -/
def fileStem? (path : String) : Option String :=
  (fileName? path).map fun name =>
    let pieces := name.splitOn "."
    match pieces.dropLast with
    | [] | [""] => name
    | stem => ".".intercalate stem

end IncrementalBuild.Path
