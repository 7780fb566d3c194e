import DiagramLint.Binary64
import DiagramLint.Position

/-!
The tree of a pie chart and the errors of its parser.
-/

namespace DiagramLint.Pie

/-- A slice: its label, its value, and where both stand. -/
structure Entry where
  label : String
  place : Position
  value : Binary64
  valueColumn : Nat
  valueLength : Nat
  deriving DecidableEq, Repr

/-- A pie chart. -/
structure Chart where
  showData : Bool := false
  title : Option String := none
  entries : List Entry := []
  deriving DecidableEq, Repr

/-- What the parser can complain about. -/
inductive ParseError where
  | missingColon (place : Position)
  | unquotedLabel (place : Position) (length : Nat) (label : String)
  | misspelledKeyword (place : Position) (word suggestion : String)
  | unexpected (place : Position) (length : Nat) (found expected : String)
  deriving DecidableEq, Repr

end DiagramLint.Pie
