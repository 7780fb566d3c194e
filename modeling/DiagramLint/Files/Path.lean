import DiagramLint.Text.Basic

/-!
Paths as text: their components, their order, and how they are joined.
-/

namespace DiagramLint

/-- A component of a path. -/
inductive PathPart where
  | root
  | here
  | up
  | name (name : String)
  deriving DecidableEq, Repr

namespace PathPart

/-- The place of a kind of component in the order of paths. -/
def rank : PathPart → Nat
  | root => 0
  | here => 1
  | up => 2
  | name _ => 3

/-- The order of components: by kind, then by name. -/
def compare (a b : PathPart) : Ordering :=
  match a, b with
  | name m, name n => Ord.compare m n
  | a, b => Ord.compare a.rank b.rank

end PathPart

namespace Path

/-- The pieces of a path between its slashes. -/
def pieces (path : String) : List String :=
  (Text.splitWhere (· == '/') path.toList).map String.ofList

/-- The component that a piece of a path is; none when it says nothing. -/
def part? (piece : String) : Option PathPart :=
  if piece = "" ∨ piece = "." then none else if piece = ".." then some .up else some (.name piece)

/-- The components of a path. A dot counts only at the start, and repeated slashes do not. -/
def parts (path : String) : List PathPart :=
  let first := match pieces path with
    | "." :: _ => [PathPart.here]
    | "" :: _ :: _ => [.root]
    | _ => []
  first ++ (pieces path).filterMap part?

/-- The order of two lists of components: component by component, a shorter path before those it
is the start of. -/
def compareParts : List PathPart → List PathPart → Ordering
  | [], [] => .eq
  | [], _ => .lt
  | _, [] => .gt
  | a :: as, b :: bs => (a.compare b).then (compareParts as bs)

/-- Paths in order, each once. Of equal paths the one that came first is kept. -/
def sortDistinct (paths : List String) : List String :=
  let sorted := paths.mergeSort fun a b => (compareParts (parts a) (parts b)).isLE
  sorted.foldr (fun path rest => path :: rest.dropWhile fun next => parts next == parts path) []

/-- Whether a path starts at the root. -/
def isAbsolute (path : String) : Bool := path.toList.head? == some '/'

/-- A path inside a directory; an absolute path stands for itself. -/
def join (directory path : String) : String :=
  if directory = "" || isAbsolute path then path
  else if directory.toList.getLast? = some '/' then directory ++ path
  else directory ++ "/" ++ path

/-- The directory a path stands in; empty when that is the directory relative paths start from. -/
def parent (path : String) : String :=
  let directory := Text.dropEndWhile (· != '/') path.toList
  let name := Text.dropEndWhile (· == '/') directory
  if name.isEmpty && !directory.isEmpty then "/" else String.ofList name

/-- The last piece of a path. -/
def fileName (path : String) : String := (pieces path).getLastD ""

/-- What stands behind the last dot of a file name; nothing when the only dot comes first. -/
def extension (path : String) : String :=
  let name := (fileName path).toList
  let suffix := (name.reverse.takeWhile (· != '.')).reverse
  if name.length ≤ suffix.length + 1 then "" else String.ofList suffix

end Path

end DiagramLint
