import IncrementalBuild.Files.Path

/-!
# Files of a working directory

A tree holds files and directories, each under the names that lead to it from a working
directory; what lies at the root of the system has `/` as its first name, and what lies
above the working directory has `..` there. Looking a path up either yields the names it
leads to or the reason why it leads nowhere.
-/

set_option autoImplicit false

namespace IncrementalBuild

/-- What can be at the end of a path. -/
inductive FileNode where
  | file (bytes : ByteArray) (isExecutable : Bool)
  | directory

/-- The names that lead to a file, from the working directory or, after `/`, from the root. -/
abbrev Place : Type := List String

namespace Place

/-- The place of the root directory. -/
def root : Place := ["/"]

/-- The place of the directory a relative path starts in, or of the root. -/
def start (path : String) : Place := if Path.isAbsolute path then root else []

/-- The place of the directory that has a place in it. The root is in itself. -/
def parent (place : Place) : Place :=
  if place == root then place
  else
    match place.getLast? with
    | none | some ".." => place ++ [".."]
    | some _ => place.dropLast

/-- Whether something is a directory wherever the tree may stand: the root, the working
directory and all above it. -/
def isGiven (place : Place) : Bool := place == root || place.all (· == "..")

end Place

/-- Why an operation on a file is refused. -/
inductive FileError where
  | notFound
  | badFormat
  | permissionDenied
  | notADirectory
  | isADirectory
  | nameTooLong
  | tooManyLevels
  | zeroInName
  | zeroInArgument
  deriving DecidableEq, Inhabited

/-- The wording of a refusal, with the number the operating system gives it, if it was asked. -/
def FileError.text : FileError → String
  | .notFound => "No such file or directory (os error 2)"
  | .badFormat => "Exec format error (os error 8)"
  | .permissionDenied => "Permission denied (os error 13)"
  | .notADirectory => "Not a directory (os error 20)"
  | .isADirectory => "Is a directory (os error 21)"
  | .nameTooLong => "File name too long (os error 36)"
  | .tooManyLevels => "Too many levels of symbolic links (os error 40)"
  | .zeroInName => "file name contained an unexpected NUL byte"
  | .zeroInArgument => "nul byte found in provided data"

/-- Files and directories, oldest first. -/
structure FileTree where
  entries : List (Place × FileNode) := []
  deriving Inhabited

namespace FileTree

/-- The largest size of a name in a directory, in bytes. -/
def maxNameSize : Nat := 255

/-- The largest size of a path, in bytes. -/
def maxPathSize : Nat := 4095

/-- What is at a place. -/
def node? (t : FileTree) (place : Place) : Option FileNode :=
  if place.isGiven then some .directory else (t.entries.find? (·.1 == place)).map (·.2)

/-- Whether a string can be a path at all. -/
def checkPath (path : String) : Except FileError Unit :=
  if path.contains '\x00' then .error .zeroInName
  else if path.isEmpty then .error .notFound
  else if maxPathSize < path.utf8ByteSize then .error .nameTooLong
  else .ok ()

/-- Follows the pieces of a path from a place on. Nothing but a directory can be left through
a piece, be it a dot. -/
def follow (t : FileTree) (place : Place) : List String → Except FileError Place
  | [] => .ok place
  | piece :: rest =>
    match t.node? place with
    | none => .error .notFound
    | some (.file ..) => .error .notADirectory
    | some .directory =>
      match piece with
      | "." => t.follow place rest
      | ".." => t.follow place.parent rest
      | name =>
        if maxNameSize < name.utf8ByteSize then .error .nameTooLong
        else if (t.node? (place ++ [name])).isNone then .error .notFound
        else t.follow (place ++ [name]) rest

/-- The place a path leads to. A path that ends in a slash leads to a directory only. -/
def locate (t : FileTree) (path : String) : Except FileError Place := do
  checkPath path
  let place ← t.follow (.start path) (Path.pieces path)
  match t.node? place with
  | some (.file ..) => if path.endsWith "/" then throw .notADirectory else return place
  | _ => return place

/-- The node a path leads to. -/
def find (t : FileTree) (path : String) : Except FileError FileNode := do
  let place ← t.locate path
  match t.node? place with
  | some node => return node
  | none => throw .notFound

/-- The bytes of a file. -/
def read (t : FileTree) (path : String) : Except FileError ByteArray := do
  match ← t.find path with
  | .file bytes _ => return bytes
  | .directory => throw .isADirectory

/-- Whether a path leads to a file. -/
def isFile (t : FileTree) (path : String) : Bool :=
  match t.find path with
  | .ok (.file ..) => true
  | _ => false

/-- Whether a path leads anywhere. -/
def leadsSomewhere (t : FileTree) (path : String) : Bool := (t.find path).toOption.isSome

/-- The names in the directory a path leads to, none if it leads to no directory. -/
def namesIn (t : FileTree) (path : String) : List String :=
  match t.locate path with
  | .error _ => []
  | .ok place => t.entries.filterMap fun (other, _) =>
      if other.dropLast == place then other.getLast? else none

/-- Puts a node at a place, instead of the one that was there. -/
def put (t : FileTree) (place : Place) (node : FileNode) : FileTree :=
  if (t.node? place).isSome then
    ⟨t.entries.map fun e => if e.1 == place then (place, node) else e⟩
  else ⟨t.entries ++ [(place, node)]⟩

/-- Makes the directories that are missing on a way, outermost first, until a file is in the
way. -/
def makeWay (t : FileTree) (place : Place) : List Path.Part → FileTree
  | [] => t
  | .root :: parts => t.makeWay .root parts
  | .current :: parts => t.makeWay place parts
  | .parent :: parts => t.makeWay place.parent parts
  | .entry name :: parts =>
    let next := place ++ [name]
    match t.node? next with
    | some .directory => t.makeWay next parts
    | some (.file ..) => t
    | none =>
      if maxNameSize < name.utf8ByteSize then t else (t.put next .directory).makeWay next parts

/-- Makes a directory and those on the way to it. -/
def makeDirectory (t : FileTree) (path : String) : FileTree :=
  match checkPath path with
  | .ok _ => t.makeWay [] (Path.parts path)
  | .error _ => t

/-- The place a path has for a file that may not be there yet: in a directory that is there,
under a name that is none of the dots. -/
def placeForFile? (t : FileTree) (path : String) : Option Place :=
  let pieces := Path.pieces path
  match (t.follow (.start path) pieces.dropLast).toOption, pieces.getLast? with
  | some dir, some name =>
    if ["", ".", ".."].contains name || path.endsWith "/" || maxNameSize < name.utf8ByteSize
      || !(t.node? dir matches some .directory) then none
    else some (dir ++ [name])
  | _, _ => none

/-- Writes a file and makes the directories on the way to it. What cannot be written is left
as it is, and a file that can be executed stays so. -/
def write (t : FileTree) (path : String) (bytes : ByteArray) (isExecutable : Bool) : FileTree :=
  match checkPath path with
  | .error _ => t
  | .ok _ =>
    let t := t.makeWay [] (Path.parts path).dropLast
    match t.placeForFile? path with
    | none => t
    | some place =>
      match t.node? place with
      | some .directory => t
      | some (.file _ before) => t.put place (.file bytes (before || isExecutable))
      | none => t.put place (.file bytes isExecutable)

/-- Removes a file. -/
def remove (t : FileTree) (path : String) : FileTree :=
  match t.placeForFile? path with
  | some place =>
    if t.node? place matches some (.file ..) then ⟨t.entries.filter (·.1 != place)⟩ else t
  | none => t

/-- The directories every system has, and the file that is always empty. -/
def system : FileTree :=
  (["/bin", "/dev", "/etc", "/home", "/lib", "/opt", "/proc", "/root", "/sbin", "/tmp", "/usr/bin",
    "/usr/lib", "/usr/local/bin", "/usr/local/sbin", "/usr/sbin", "/usr/share", "/var"].foldl
      makeDirectory {}).write "/dev/null" .empty false

end FileTree

end IncrementalBuild
