import DiagramLint.Files.Path

/-!
File trees: files with what they contain, below one root, and the directory from which relative
paths start. Reading and writing are functions of the tree.
-/

namespace DiagramLint

/-- What a file contains: a text, or bytes that are none. -/
inductive FileContent where
  | text (t : Text)
  | notText
  deriving DecidableEq, Repr

/-- The ways in which reading a file fails. -/
inductive ReadError where
  | notFound
  | isDirectory
  | notText
  deriving DecidableEq, Repr

namespace ReadError

/-- The wording of a failure. -/
def message : ReadError → String
  | notFound => "No such file or directory (os error 2)"
  | isDirectory => "Is a directory (os error 21)"
  | notText => "stream did not contain valid UTF-8"

end ReadError

/-- The names that lead from the root to a file or directory. -/
abbrev Location := List String

/-- Files and directories. The directories that hold something need not be listed, nor does the
one in which relative paths start. -/
structure FileTree where
  files : List (Location × FileContent) := []
  directories : List Location := []
  workingDirectory : Location := []

namespace FileTree

/-- Whether a location is a directory. -/
def isDirectoryAt (tree : FileTree) (place : Location) : Bool :=
  place.isPrefixOf tree.workingDirectory || tree.directories.any (place.isPrefixOf ·)
  || tree.files.any fun file => place.isPrefixOf file.1 && place != file.1

/-- What a location contains. -/
def content? (tree : FileTree) (place : Location) : Option FileContent := tree.files.lookup place

/-- Whether something stands at a location. -/
def existsAt (tree : FileTree) (place : Location) : Bool :=
  (tree.content? place).isSome || tree.isDirectoryAt place

/-- The location that pieces of a path lead to from another one; every step must exist. Above the
root is the root. -/
def follow (tree : FileTree) (place : Location) : List String → Option Location
  | [] => some place
  | piece :: rest =>
    if !tree.isDirectoryAt place then none
    else if piece = "" ∨ piece = "." then follow tree place rest
    else if piece = ".." then follow tree place.dropLast rest
    else if tree.existsAt (place ++ [piece]) then follow tree (place ++ [piece]) rest
    else none

/-- Where a path starts: an absolute one at the root. -/
def start (tree : FileTree) (path : String) : Location :=
  if Path.isAbsolute path then [] else tree.workingDirectory

/-- The location of a path. -/
def locate (tree : FileTree) (path : String) : Option Location :=
  if path.isEmpty then none else tree.follow (tree.start path) (Path.pieces path)

/-- Whether a path leads somewhere. -/
def pathExists (tree : FileTree) (path : String) : Bool := (tree.locate path).isSome

/-- Whether a path leads to a directory. -/
def isDirectory (tree : FileTree) (path : String) : Bool :=
  (tree.locate path).any tree.isDirectoryAt

/-- Whether a path leads to a file. -/
def isFile (tree : FileTree) (path : String) : Bool :=
  (tree.locate path).any fun place => (tree.content? place).isSome

/-- The text of the file at a path. -/
def read (tree : FileTree) (path : String) : Except ReadError Text :=
  match tree.locate path with
  | none => .error .notFound
  | some place =>
    match tree.content? place with
    | some (.text t) => .ok t
    | some .notText => .error .notText
    | none => .error .isDirectory

/-- The tree with another text in the file at a path. -/
def write (tree : FileTree) (path : String) (t : Text) : FileTree :=
  match tree.locate path with
  | none => tree
  | some place =>
    { tree with files := tree.files.map fun (p, content) =>
        if p = place then (p, .text t) else (p, content) }

/-- Every location below a directory, as the names that lead there from it. -/
def below (tree : FileTree) (place : Location) : List Location :=
  let all := tree.files.map (·.1) ++ tree.directories ++ [tree.workingDirectory]
  let inside := (all.filter (place.isPrefixOf ·)).map (·.drop place.length)
  (inside.flatMap fun names => (List.range names.length).map fun n => names.take (n + 1)).eraseDups

/-- The names in a directory. -/
def children (tree : FileTree) (place : Location) : List String :=
  ((tree.below place).filterMap fun names => match names with
    | [name] => some name
    | _ => none)

end FileTree

end DiagramLint
