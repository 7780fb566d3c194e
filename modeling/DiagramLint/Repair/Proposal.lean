import DiagramLint.Diagnostic
import DiagramLint.Edit
import DiagramLint.Machine
import DiagramLint.Repair.Level

/-!
Proposals: the edits that would repair one diagnostic, and where in its line it points.
-/

namespace DiagramLint

/-- Edits that would repair a diagnostic. -/
structure Proposal where
  level : Level
  edits : List Edit
  /-- The edits replace a whole label, so that other repairs of the line have to wait. -/
  wholeLine : Bool := false
  deriving DecidableEq, Repr

namespace Proposal

/-- One edit that cannot change what a diagram means. -/
def safe (edit : Edit) : Proposal := { level := .safe, edits := [edit] }

/-- One edit of a level. -/
def atLevel (level : Level) (edit : Edit) : Proposal := { level, edits := [edit] }

end Proposal

/-- A line and an index into it, at most its length. -/
structure Caret where
  line : Text
  index : Nat

namespace Caret

/-- Where a diagnostic points; none when the text has no such line. -/
def of? (t : Text) (d : Diagnostic) : Option Caret :=
  (t.line? d.line).map fun line => ⟨line, min (d.column - 1) line.length⟩

/-- The characters before. -/
def before (c : Caret) : Text := c.line.take c.index

/-- The characters from here on. -/
def ahead (c : Caret) : Text := c.line.drop c.index

/-- The characters spanned by a diagnostic that points here, as far as the line has them. -/
def span (c : Caret) (d : Diagnostic) : Except Fault Text :=
  (wordAdd c.line.length c.index d.spanLength).map fun stop => (c.line.take stop).drop c.index

/-- How many characters right before satisfy `p`. -/
def countBefore (c : Caret) (p : Char → Bool) : Nat := (c.before.reverse.takeWhile p).length

/-- How many characters from here on satisfy `p` one after the other. -/
def countAhead (c : Caret) (p : Char → Bool) : Nat := (c.ahead.takeWhile p).length

end Caret

end DiagramLint
