import DiagramLint.Position

/-!
The tree of a sequence diagram and the errors of its parser.
-/

namespace DiagramLint.Sequence

/-- A message between two participants. -/
structure Message where
  sender : String
  receiver : String
  arrow : String
  line : Nat
  text : Option String
  deriving DecidableEq, Repr

/-- A block without its body: its keyword and label, where it was opened, and the lines of its
branches. -/
structure BlockHead where
  keyword : String
  place : Position
  label : Option String
  branches : List Nat := []
  deriving DecidableEq, Repr

/-- A statement of a sequence diagram. -/
inductive Statement where
  | participant (line : Nat) (keyword name : String)
  | message (message : Message)
  | note (line : Nat)
  | activation (line : Nat) (active : Bool) (target : String)
  /-- A statement about the diagram as a whole. -/
  | directive (line : Nat) (keyword : String)
  | block (head : BlockHead) (body : List Statement)
  deriving Repr

/-- A sequence diagram. -/
structure Diagram where
  headerLine : Nat
  statements : List Statement
  deriving Repr

/-- What the parser can complain about. -/
inductive ParseError where
  | missingColon (place : Position)
  | misspelledKeyword (place : Position) (word suggestion : String)
  | blockMissingEnd (place : Position) (keyword : String) (openedAt : Nat)
  | endWithoutBlock (place : Position)
  | branchOutsideBlock (place : Position) (keyword parent : String)
  | unexpected (place : Position) (length : Nat) (found expected : String)
  deriving DecidableEq, Repr

end DiagramLint.Sequence
