import DiagramLint.Diagnostic

/-!
What linting files comes to: the report of each file and the totals over all of them.
-/

namespace DiagramLint

/-- The number of errors among diagnostics. -/
def errorCount (diagnostics : List Diagnostic) : Nat := diagnostics.countP (·.isError)

/-- The number of warnings among diagnostics. -/
def warningCount (diagnostics : List Diagnostic) : Nat := diagnostics.countP (·.isWarning)

/-- What linting one file reports. -/
structure FileReport where
  path : String
  /-- The dialect the file is written in, if it is a known one. -/
  dialect : Option String := none
  diagnostics : List Diagnostic
  /-- The text of the file, if it could be read. -/
  source : Option Text := none
  deriving DecidableEq, Repr

/-- What linting files reports: a report for each file, in order, and the totals. -/
structure LintResult where
  files : List FileReport := []
  filesProcessed : Nat := 0
  filesWithErrors : Nat := 0
  filesWithWarnings : Nat := 0
  errors : Nat := 0
  warnings : Nat := 0
  /-- How long it took, in thousandths of a second. -/
  duration : Nat := 0
  deriving DecidableEq, Repr

namespace LintResult

/-- The result with the report of one more file. -/
def add (r : LintResult) (file : FileReport) : LintResult :=
  { r with
    files := r.files ++ [file]
    filesProcessed := r.filesProcessed + 1
    filesWithErrors := r.filesWithErrors + (if 0 < errorCount file.diagnostics then 1 else 0)
    filesWithWarnings :=
      r.filesWithWarnings + (if 0 < warningCount file.diagnostics then 1 else 0)
    errors := r.errors + errorCount file.diagnostics
    warnings := r.warnings + warningCount file.diagnostics }

/-- The result of some reports. -/
def ofReports (reports : List FileReport) : LintResult := reports.foldl add {}

/-- Whether there is an error. -/
def hasErrors (r : LintResult) : Bool := 0 < r.errors

/-- Whether there is a warning. -/
def hasWarnings (r : LintResult) : Bool := 0 < r.warnings

/-- Whether there is neither. -/
def isClean (r : LintResult) : Bool := !r.hasErrors && !r.hasWarnings

/-- The exit code: 2 for errors, 1 for warnings only, 0 for neither. -/
def exitCode (r : LintResult) : Nat := if r.hasErrors then 2 else if r.hasWarnings then 1 else 0

/-- Every diagnostic with the path of its file, in order. -/
def diagnostics (r : LintResult) : List (String × Diagnostic) :=
  r.files.flatMap fun file => file.diagnostics.map fun d => (file.path, d)

end LintResult

/-- A number with a noun, in the plural unless the number is one. -/
def counted (n : Nat) (noun : String) : String :=
  toString n ++ " " ++ noun ++ (if n = 1 then "" else "s")

/-- Counts of errors and warnings in words. -/
def summarize (errors warnings : Nat) : String :=
  counted errors "error" ++ ", " ++ counted warnings "warning"

end DiagramLint
