import DiagramLint.Binary64
import DiagramLint.Linter.Result
import DiagramLint.Output.Style

/-!
The report for people to read: diagnostics by file, each with its source line and its hint, and the
totals at the end.
-/

namespace DiagramLint

/-- What a listing shows. -/
structure Listing where
  colored : Bool := true
  /-- The line of each diagnostic, with its span marked. -/
  showSource : Bool := true
  showHints : Bool := true
  /-- The totals. -/
  showStats : Bool := true
  deriving DecidableEq, Repr

namespace Listing

/-- A text in a style, if the listing is colored. -/
def paint (l : Listing) (style : TextStyle) (s : String) : Text := style.paint l.colored s.toList

/-- The style of a severity. -/
def styleOf : Severity → TextStyle
  | .error => .boldRed
  | .warning => .boldYellow

/-- The line of a diagnostic: where, how bad, which code, what. -/
def diagnostic (l : Listing) (path : String) (d : Diagnostic) : Text :=
  let code := match d.code with
    | some code => "[".toList ++ l.paint .cyan code ++ "]".toList
    | none => []
  (path ++ ":" ++ toString d.line ++ ":" ++ toString d.column ++ ": ").toList
    ++ l.paint (styleOf d.severity) d.severity.name ++ code ++ (": " ++ d.message ++ "\n").toList

/-- A number filled up to four characters. -/
def lineNumber (n : Nat) : String :=
  let digits := Nat.toDigits 10 n
  String.ofList (List.replicate (4 - digits.length) ' ' ++ digits)

/-- The source line of a diagnostic, and under it a mark for every character of its span that the
line has, one at least; nothing when the text has no such line. -/
def excerpt (l : Listing) (source : Text) (d : Diagnostic) : Text :=
  match source.readingLines[d.line - 1]? with
  | none => []
  | some line =>
    let bar := l.paint .blue "|"
    let before := d.column - 1
    let width := max (min d.spanLength (line.length - before)) 1
    l.paint .blue (lineNumber d.line) ++ ' ' :: bar ++ ' ' :: line ++ "\n     ".toList ++ bar
      ++ ' ' :: List.replicate before ' '
      ++ l.paint .red (String.ofList (List.replicate width '^')) ++ ['\n']

/-- The hint of a diagnostic. -/
def hint (l : Listing) (hint : String) : Text :=
  "     ".toList ++ l.paint .blue "=" ++ (" hint: " ++ hint ++ "\n").toList

/-- Everything about a diagnostic of a file. -/
def entry (l : Listing) (file : FileReport) (d : Diagnostic) : Text :=
  l.diagnostic file.path d
  ++ (if l.showSource then (file.source.map fun t => l.excerpt t d).getD [] else [])
  ++ (if l.showHints then (d.hint.map l.hint).getD [] else [])

/-- Everything about a file; nothing when it has no diagnostics. -/
def file (l : Listing) (f : FileReport) : Text :=
  if f.diagnostics.isEmpty then []
  else l.paint .underlined f.path ++ '\n' :: f.diagnostics.flatMap (l.entry f) ++ ['\n']

/-- The counts of errors and warnings, those that are not zero. -/
def problems (l : Listing) (r : LintResult) : List Text :=
  (if r.hasErrors then [l.paint .red (counted r.errors "error")] else [])
  ++ (if r.hasWarnings then [l.paint .yellow (counted r.warnings "warning")] else [])

/-- A duration in seconds. -/
def seconds (duration : Nat) : String := (Binary64.ofDecimal false duration 3).fixed 2

/-- The totals. -/
def stats (l : Listing) (r : LintResult) : Text :=
  let problems := match l.problems r with
    | [] => []
    | counts => ": ".toList ++ ", ".toList.intercalate counts
  (counted r.filesProcessed "file" ++ " processed").toList ++ problems
    ++ ("\nFinished in " ++ seconds r.duration ++ "s\n").toList

/-- The whole report. -/
def report (l : Listing) (r : LintResult) : Text :=
  r.files.flatMap l.file ++ (if l.showStats then l.stats r else [])

end Listing

end DiagramLint
