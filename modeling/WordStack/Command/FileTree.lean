import WordStack.Source

/-!
# Files by name

A file tree holds files and directories below a current directory. A path leads through it
component by component: an empty component and `.` stay, `..` goes up, and any other one goes down
into a directory. Above the current directory nothing is known but the directories themselves.
Names and whole paths have a greatest length.

A directory can be opened, but reading it fails.
-/
namespace WordStack

/-- What is found at a path. -/
inductive Found where
  | file (content : Bytes)
  | directory
  deriving DecidableEq, Repr

/-- Why nothing is found at a path. -/
inductive Lost where
  | missing
  | notDirectory
  | invalid
  | tooLong
  deriving DecidableEq, Repr

/-- The wording of why nothing is found. -/
def Lost.message : Lost → Bytes
  | missing => bytes "no such file or directory"
  | notDirectory => bytes "not a directory"
  | invalid => bytes "invalid argument"
  | tooLong => bytes "file name too long"

/-- Files and directories below a current directory, by their components. -/
structure FileTree where
  files : List (List Bytes × Bytes) := []
  directories : List (List Bytes) := []

namespace FileTree

/-- The most bytes that a component may have. -/
def longestName : Nat := 255

/-- The most bytes that a path may have. -/
def longestPath : Nat := 4095

/-- The components of a path. -/
def components (path : Bytes) : List Bytes := path.splitOnP (· == 47)

/-- A component that stays where it is. -/
def stays (c : Bytes) : Bool := c.isEmpty || c == bytes "."

/-- The places that components lead through, from a place that is known by its components innermost
first; none if they lead out of the current directory. -/
def trail? (up : List Bytes) : List Bytes → Option (List (List Bytes))
  | [] => some [up.reverse]
  | c :: rest =>
    let next? :=
      if stays c then some up else if c == bytes ".." then up.tail? else some (c :: up)
    next?.bind fun next => (trail? next rest).map (up.reverse :: ·)

/-- A tree of files and directories given by their paths. All places that a path leads through on
the way are directories. -/
def ofPaths (files : List (Bytes × Bytes)) (directories : List Bytes) : FileTree :=
  let trails := files.filterMap fun (path, content) =>
    (trail? [] (components path)).map fun trail => (trail, content)
  { files := trails.filterMap fun (trail, content) => trail.getLast?.map (·, content)
    directories := trails.flatMap (·.1.dropLast) ++
      (directories.filterMap fun path => trail? [] (components path)).flatten }

/-- What a place below the current directory holds. A place on the way to something is a
directory. -/
def at? (t : FileTree) (place : List Bytes) : Option Found :=
  match t.files.lookup place with
  | some content => some (.file content)
  | none =>
    if place.isEmpty || t.directories.any (place.isPrefixOf ·) ||
        t.files.any (fun (p, _) => place.isPrefixOf p) then
      some .directory
    else none

/-- Follow components from a place, known by its components innermost first, or from outside of the
tree. -/
def follow (t : FileTree) : (place : Option (List Bytes)) → List Bytes → Except Lost Found
  | none, [] => .ok .directory
  | some up, [] =>
    match t.at? up.reverse with
    | some found => .ok found
    | none => .error .missing
  | place, c :: rest =>
    match place with
    | none =>
      if stays c || c == bytes ".." then t.follow none rest
      else if longestName < c.length then .error .tooLong
      else .error .missing
    | some up =>
      match t.at? up.reverse with
      | none => .error .missing
      | some (.file _) => .error .notDirectory
      | some .directory =>
        if stays c then t.follow (some up) rest
        else if c == bytes ".." then
          match up with
          | [] => t.follow none rest
          | _ :: outer => t.follow (some outer) rest
        else if longestName < c.length then .error .tooLong
        else t.follow (some (c :: up)) rest

/-- Look a path up. -/
def find (t : FileTree) (path : Bytes) : Except Lost Found :=
  if path.isEmpty then .error .missing
  else if path.contains 0 then .error .invalid
  else if longestPath < path.length then .error .tooLong
  else t.follow (if path.head? == some 47 then none else some []) (components path)

/-- Open a path for reading. -/
def openFile (t : FileTree) (path : Bytes) : Except Error Source :=
  match t.find path with
  | .ok (.file content) => .ok { content }
  | .ok .directory =>
    .ok { content := [], failure := some (.file (bytes "read") path (bytes "is a directory")) }
  | .error e => .error (.file (bytes "open") path e.message)

end FileTree

end WordStack
