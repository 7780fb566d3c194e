import DiagramLint.Flowchart.Language
import DiagramLint.Pie.Language
import DiagramLint.Repair.Convergence
import DiagramLint.Sequence.Language

/-!
Dialects: the diagram languages a text can be written in, told apart by the first word of the
text, and linting and repairing a text in its dialect.
-/

namespace DiagramLint

/-- A diagram language. -/
structure Dialect where
  id : String
  description : String
  /-- The words that a text of the dialect starts with. -/
  headers : List String
  version : String := "0.1.0"
  lint : Text → LintOptions → Except Fault Report

/-- The first word of the first line that is neither blank nor a comment; none when that line
starts with a semicolon. -/
def headerWord? (t : Text) : Option String := do
  let line ← (t.lines.map fun l => l.content.trim).find? fun line =>
    !line.isEmpty && !line.startsWith ['%', '%']
  if line.firstWord.isEmpty then none else some (String.ofList line.firstWord)

namespace Dialect

/-- Whether a text is written in the dialect. -/
def detects (d : Dialect) (t : Text) : Bool := (headerWord? t).any d.headers.contains

/-- The first dialect of a list that a text is written in. -/
def detect? (dialects : List Dialect) (t : Text) : Option Dialect := dialects.find? (·.detects t)

def flowchart : Dialect where
  id := "flowchart"
  description := "Flowchart diagrams (flowchart, graph)"
  headers := Flowchart.headers
  lint := Flowchart.grammar.lint

def pie : Dialect where
  id := "pie"
  description := "Pie charts"
  headers := Pie.headers
  lint := Pie.grammar.lint

def sequence : Dialect where
  id := "sequence"
  description := "Sequence diagrams"
  headers := Sequence.headers
  lint := Sequence.grammar.lint

/-- The built-in dialects, in the order in which they are tried. -/
def builtin : List Dialect := [flowchart, pie, sequence]

/-- The diagnostics of a text. -/
def diagnostics (d : Dialect) (options : LintOptions) (t : Text) :
    Except Fault (List Diagnostic) :=
  (d.lint t options).map (·.diagnostics)

/-- Repair a text of the dialect with the built-in repairs. -/
def fix (d : Dialect) (t : Text) (options : LintOptions) (level : Level) :
    Except Fault Outcome :=
  converge (d.diagnostics options) Registry.builtin t level

end Dialect

/-- The diagnostic for a text in no known dialect. -/
def unknownDiagram : Diagnostic :=
  (Diagnostic.error ⟨1, 1⟩ "Unknown diagram type").withCode Code.unknownDiagram

/-- Lint a text in the built-in dialect it is written in. -/
def lintText (t : Text) (options : LintOptions) : Except Fault (List Diagnostic) :=
  match Dialect.detect? Dialect.builtin t with
  | some d => d.diagnostics options t
  | none => .ok [unknownDiagram]

/-- Repair a text in the built-in dialect it is written in. -/
def fixText (t : Text) (options : LintOptions) (level : Level) : Except Fault Outcome :=
  match Dialect.detect? Dialect.builtin t with
  | some d => d.fix t options level
  | none => .ok ⟨t, [unknownDiagram], 0, 0⟩

end DiagramLint
