import DiagramLint.Position

/-!
The tree of a flowchart and the errors of its parser.
-/

namespace DiagramLint.Flowchart

/-- A node as it stands in a statement. -/
structure Node where
  id : String
  place : Position
  shape : Option String := none
  label : Option String := none
  deriving DecidableEq, Repr

/-- Groups of nodes with a link between each two of them. -/
structure Chain where
  groups : List (List Node)
  links : List String
  deriving DecidableEq, Repr

/-- A statement of a flowchart. -/
inductive Statement where
  | subgraph (id : Option String) (place : Position) (body : List Statement)
  | edges (chain : Chain)
  | direction (line : Nat) (value : String)
  /-- A statement that only changes how things look or react. -/
  | style (line : Nat) (keyword : String)
  deriving Repr

/-- A flowchart. -/
structure Chart where
  headerLine : Nat
  direction : Option String
  statements : List Statement
  deriving Repr

/-- What the parser can complain about. -/
inductive ParseError where
  | mismatchedCloser (place : Position) (found expected : String)
  | unclosed (place : Position) (expected : String)
  | missingArrow (place : Position) (length : Nat)
  | trailingStatement (place : Position)
  | misspelledKeyword (place : Position) (word suggestion : String)
  | blockMissingEnd (place : Position) (openedAt : Nat)
  | endWithoutBlock (place : Position)
  | unexpected (place : Position) (length : Nat) (found expected : String)
  deriving DecidableEq, Repr

end DiagramLint.Flowchart
