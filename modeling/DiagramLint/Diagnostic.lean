import DiagramLint.Position
import DiagramLint.Severity

/-!
Diagnostics: one reported problem each, with its place, its severity and, where they apply, a
stable code, a hint and the number of characters it spans.
-/

namespace DiagramLint

/-- A reported problem. -/
structure Diagnostic where
  line : Nat
  column : Nat
  message : String
  severity : Severity
  /-- The stable name of the kind of problem, by which a repair is chosen. -/
  code : Option String := none
  hint : Option String := none
  /-- The number of characters the problem spans from `column` on. -/
  length : Option Nat := none
  deriving DecidableEq, Repr, Inhabited

namespace Diagnostic

/-- A diagnostic at a position, which is moved to line one and column one at least. -/
def make (severity : Severity) (place : Position) (message : String) : Diagnostic :=
  { line := max place.line 1, column := max place.column 1, message, severity }

/-- An error. -/
def error (place : Position) (message : String) : Diagnostic := make .error place message

/-- A warning. -/
def warning (place : Position) (message : String) : Diagnostic := make .warning place message

/-- The diagnostic with a code. -/
def withCode (d : Diagnostic) (code : String) : Diagnostic := { d with code := some code }

/-- The diagnostic with a hint. -/
def withHint (d : Diagnostic) (hint : String) : Diagnostic := { d with hint := some hint }

/-- The diagnostic with a span, which is one character at least. -/
def withLength (d : Diagnostic) (length : Nat) : Diagnostic :=
  { d with length := some (max length 1) }

/-- The diagnostic with another severity. -/
def withSeverity (d : Diagnostic) (severity : Severity) : Diagnostic := { d with severity }

/-- Where the diagnostic points. -/
def place (d : Diagnostic) : Position := ⟨d.line, d.column⟩

/-- The number of characters spanned, one when nothing is said. -/
def spanLength (d : Diagnostic) : Nat := max (d.length.getD 1) 1

/-- Whether the diagnostic carries a code. -/
def hasCode (d : Diagnostic) (code : String) : Bool := d.code == some code

/-- The diagnostic with its place moved into a text. -/
def clampTo (d : Diagnostic) (t : Text) : Diagnostic :=
  let p := t.clamp d.place
  { d with line := p.line, column := p.column }

/-- Whether the diagnostic is an error. -/
def isError (d : Diagnostic) : Bool := d.severity == .error

/-- Whether the diagnostic is a warning. -/
def isWarning (d : Diagnostic) : Bool := d.severity == .warning

/-! ## As JSON -/

/-- An optional field of an object: nothing when there is no value. -/
def optionalField (name : String) (value : Option Json) : List (String × Json) :=
  (value.map fun v => (name, v)).toList

/-- The fields of a diagnostic in their written order; what is absent is left out. -/
def toFields (d : Diagnostic) : List (String × Json) :=
  [("line", .ofNat d.line), ("column", .ofNat d.column), ("message", .string d.message),
    ("severity", d.severity.toJson)]
  ++ optionalField "code" (d.code.map .string)
  ++ optionalField "hint" (d.hint.map .string)
  ++ optionalField "length" (d.length.map .ofNat)

/-- The diagnostic as a JSON object. -/
def toJson (d : Diagnostic) : Json := .object d.toFields

/-- The diagnostic a JSON value spells. -/
def ofJson? (v : Json) : Option Diagnostic := do
  let fields ← v.record? ["line", "column", "message", "severity", "code", "hint", "length"]
  return {
    line := ← Json.required Json.count? fields "line"
    column := ← Json.required Json.count? fields "column"
    message := ← Json.required Json.string? fields "message"
    severity := ← Json.required Severity.ofJson? fields "severity"
    code := ← Json.optional Json.string? fields "code"
    hint := ← Json.optional Json.string? fields "hint"
    length := ← Json.optional Json.count? fields "length" }

end Diagnostic

/-- Whether diagnostics already report a code on a line. -/
def alreadyReported (prior : List Diagnostic) (code : String) (line : Nat) : Bool :=
  prior.any fun d => d.line == line && d.hasCode code

end DiagramLint
