import DiagramLint.Config.Load
import DiagramLint.Dialect
import DiagramLint.Linter.Result

/-!
A linter: dialects under a configuration. It lints and repairs texts, and finds and lints files.
-/

namespace DiagramLint

/-- Dialects, in the order in which they are tried, under a configuration. -/
structure Linter where
  config : Config := {}
  dialects : List Dialect := Dialect.builtin

namespace Linter

/-! ## Texts -/

/-- The dialect a text is written in. -/
def detect? (l : Linter) (t : Text) : Option Dialect := Dialect.detect? l.dialects t

/-- The diagnostic with the severity configured for its code. -/
def adjust (l : Linter) (d : Diagnostic) : Diagnostic :=
  match d.code.bind l.config.severity? with
  | some s => d.withSeverity s
  | none => d

/-- Whether a diagnostic is reported; one without a code always is. -/
def isReported (l : Linter) (d : Diagnostic) : Bool := d.code.all l.config.isEnabled

/-- The diagnostics that are reported, as they are reported. -/
def filter (l : Linter) (diagnostics : List Diagnostic) : List Diagnostic :=
  (diagnostics.filter l.isReported).map l.adjust

/-- The diagnostic for a text in none of the dialects. -/
def unknown (l : Linter) : Diagnostic :=
  unknownDiagram.withHint
    ("Start the diagram with one of: " ++ ", ".intercalate (l.dialects.flatMap (·.headers)))

/-- What is reported of a text in a dialect. -/
def lintIn (l : Linter) (d : Dialect) (t : Text) : Except Fault (List Diagnostic) :=
  (d.diagnostics l.config.lintOptions t).map l.filter

/-- Lint the text of a file. -/
def lintText (l : Linter) (t : Text) (path : String) : Except Fault FileReport :=
  match l.detect? t with
  | some d => (l.lintIn d t).map fun found => ⟨path, some d.id, found, some t⟩
  | none => .ok ⟨path, none, l.filter [l.unknown], some t⟩

/-- Repair a text with the built-in repairs. The dialect is that of the text as it was. -/
def fixText (l : Linter) (t : Text) : Except Fault Outcome :=
  match l.detect? t with
  | some d => converge (l.lintIn d) Registry.builtin t l.config.level
  | none => .ok ⟨t, l.filter [l.unknown], 0, 0⟩

/-! ## Files -/

/-- Repair the text of a file; nothing is written. -/
def fixFile (l : Linter) (tree : FileTree) (path : String) :
    Except Fault (Except ReadError Outcome) :=
  match tree.read path with
  | .ok t => (l.fixText t).map .ok
  | .error e => .ok (.error e)

/-- The diagnostic for a file that cannot be read. -/
def unreadable (e : ReadError) : Diagnostic :=
  (Diagnostic.error ⟨1, 1⟩ ("Failed to read file: " ++ e.message)).withCode Code.fileReadError

/-- Lint a file. -/
def lintFile (l : Linter) (tree : FileTree) (path : String) : Except Fault FileReport :=
  match tree.read path with
  | .ok t => l.lintText t path
  | .error e => .ok { path, diagnostics := l.filter [unreadable e] }

/-- Lint files. -/
def lint (l : Linter) (tree : FileTree) (paths : List String) : Except Fault LintResult :=
  (paths.mapM (l.lintFile tree)).map .ofReports

/-- The files that a path pattern leads to; a bad pattern is an error of the configuration. -/
def expand (tree : FileTree) (pattern : String) : Except ConfigError (List String) :=
  (tree.expand pattern).mapError fun e => .invalid (.badPathPattern pattern e)

/-- The files that an input names: those in a directory that match the configured patterns, a file
as it is, and otherwise those that a path pattern leads to and that are not left out. -/
def filesOf (tree : FileTree) (m : FileMatcher) (input : String) :
    Except ConfigError (List String) := do
  if tree.isDirectory input then
    let directory := String.ofList (Text.dropEndWhile (· == '/') input.toList)
    return (← expand tree (directory ++ "/**/*")).filter m.isMatch
  else if tree.isFile input then return [input]
  else return (← expand tree input).filter fun path => !m.isExcluded path

/-- The files that inputs name, in order and each once. -/
def discover (l : Linter) (readers : Readers) (tree : FileTree) (inputs : List String) :
    Except ConfigError (List String) := do
  let m ← readers.matcher l.config
  return Path.sortDistinct (← inputs.mapM (filesOf tree m)).flatten

end Linter

end DiagramLint
