import DiagramLint.Config.Basic
import DiagramLint.Output.Listing
import DiagramLint.Output.Record

/-!
The layouts of a report.
-/

namespace DiagramLint

/-- One line for a diagnostic: where, how bad, possibly which code, and what. -/
def compactLine (showCode : Bool) (path : String) (d : Diagnostic) : Text :=
  let code := match d.code with
    | some code => if showCode then "[" ++ code ++ "] " else ""
    | none => ""
  (path ++ ":" ++ toString d.line ++ ":" ++ toString d.column ++ ": " ++ d.severity.name ++ " "
    ++ code ++ d.message).toList

/-- How reports are laid out. -/
inductive Formatter where
  /-- For people to read. -/
  | listing (style : Listing)
  /-- For programs to read. -/
  | record (layout : Json.Layout)
  /-- A line for each diagnostic. -/
  | compact (showCode : Bool)
  deriving DecidableEq, Repr

namespace Formatter

/-- The formatter for an output format. -/
def ofFormat (format : OutputFormat) (colored : Bool) : Formatter :=
  match format with
  | .text => .listing { colored }
  | .json => .record (.indented 0)
  | .compact => .compact true

/-- A diagnostic of a file. -/
def diagnostic (f : Formatter) (path : String) (d : Diagnostic) : Text :=
  match f with
  | .listing l => l.diagnostic path d
  | .record layout => (d.toJsonIn path).render layout
  | .compact showCode => compactLine showCode path d

/-- A whole report. -/
def report (f : Formatter) (r : LintResult) : Text :=
  match f with
  | .listing l => l.report r
  | .record layout => r.toJson.render layout
  | .compact showCode => r.diagnostics.flatMap fun (path, d) => compactLine showCode path d ++ ['\n']

end Formatter

end DiagramLint
