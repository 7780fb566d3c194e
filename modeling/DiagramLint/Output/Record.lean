import DiagramLint.Json.Writer
import DiagramLint.Linter.Result

/-!
The report for programs to read: a JSON object with the files and the totals.
-/

namespace DiagramLint

namespace FileReport

/-- The report of a file as a JSON object; its text is left out. -/
def toJson (f : FileReport) : Json :=
  .object ([("path", .string f.path)]
    ++ Diagnostic.optionalField "dialect" (f.dialect.map .string)
    ++ [("diagnostics", .array (f.diagnostics.map Diagnostic.toJson))])

end FileReport

namespace LintResult

/-- The totals as a JSON object. -/
def summaryJson (r : LintResult) : Json :=
  .object
    [("files_processed", .ofNat r.filesProcessed), ("files_with_errors", .ofNat r.filesWithErrors),
      ("files_with_warnings", .ofNat r.filesWithWarnings), ("error_count", .ofNat r.errors),
      ("warning_count", .ofNat r.warnings), ("duration_ms", .ofNat r.duration)]

/-- The result as a JSON object. -/
def toJson (r : LintResult) : Json :=
  .object [("files", .array (r.files.map FileReport.toJson)), ("summary", r.summaryJson)]

end LintResult

/-- A diagnostic with the path of its file as a JSON object. -/
def Diagnostic.toJsonIn (path : String) (d : Diagnostic) : Json :=
  .object (("file", .string path) :: d.toFields)

end DiagramLint
