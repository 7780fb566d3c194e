import DiagramLint.CommandLine.Arguments
import DiagramLint.Linter.Fixing
import DiagramLint.Output.Formatter

/-!
Running a command line over files, of which some may stand in a home directory: what is printed,
the exit code, and the files afterwards.
-/

namespace DiagramLint.CommandLine

/-- What a run comes to. -/
structure Execution where
  code : Nat
  stdout : Text := []
  stderr : Text := []
  /-- The files afterwards. -/
  files : FileTree

/-- What a run can fail with. -/
inductive Failure where
  /-- A named configuration file, or the one that was found, cannot be used. -/
  | config (path : Option String) (reason : ConfigError)
  /-- The inputs cannot be used. -/
  | inputs (reason : ConfigError)
  | noFiles
  deriving DecidableEq, Repr

namespace Failure

/-- A configuration error with its cause, which for an unreadable file is repeated. -/
def describe (e : ConfigError) : String :=
  match e with
  | .unreadable reason => e.message ++ ": " ++ reason.message
  | _ => e.message

/-- The wording of a failure. -/
def message : Failure → String
  | config (some path) reason => "Failed to load config " ++ path ++ ": " ++ describe reason
  | config none reason => "Failed to load config: " ++ describe reason
  | inputs reason => describe reason
  | noFiles => "No input files"

end Failure

/-- A line about an error. -/
def errorLine (colored : Bool) (message : String) : Text :=
  TextStyle.boldRed.paint colored "error".toList ++ (": " ++ message ++ "\n").toList

/-! ## Listing the codes -/

/-- How a code is repaired, in words. -/
def repairOf (code : String) : String :=
  match Registry.builtin.get? code with
  | some s => "fix: " ++ s.describe ++ ", " ++ s.minLevel.name
  | none => "no fix"

/-- A code with its repair and its description. -/
def codeEntry (code description : String) : String :=
  let padding := String.ofList (List.replicate (28 - code.length) ' ')
  "  " ++ code ++ padding ++ " [" ++ repairOf code ++ "]\n      " ++ description ++ "\n"

/-- Every code. -/
def codeList : Text :=
  "Diagnostic codes\n\n".toList
    ++ Code.catalogue.flatMap fun (code, description) => (codeEntry code description).toList

/-! ## Running -/

namespace Invocation

/-- Whether output is colored. It is taken not to go to a terminal. -/
def isColored (inv : Invocation) (config : Config) : Bool :=
  !inv.has .noColor && config.color == .always

/-- What is done with repaired texts, if texts are repaired. -/
def fixMode? (inv : Invocation) : Option FixMode :=
  if inv.has .diff then some .diff
  else if inv.has .fix then some (if inv.has .write then .write else .preview)
  else none

/-- The configuration of a run. -/
def loadConfig (inv : Invocation) (readers : Readers) (tree : FileTree) (home : Option String) :
    Except Failure Config :=
  let loaded := match inv.config with
    | some path => Config.load readers tree path
    | none => Config.discover readers tree home
  (loaded.mapError (Failure.config inv.config)).map (·.withOverrides inv.overrides)

/-- The files of a run, of which there must be one. -/
def findFiles (inv : Invocation) (l : Linter) (readers : Readers) (tree : FileTree) :
    Except Failure (List String) := do
  match ← (l.discover readers tree inv.inputs).mapError Failure.inputs with
  | [] => .error .noFiles
  | paths => return paths

end Invocation

/-- What is printed of the problems that are left after repairs. -/
def remainingLines (f : Formatter) (r : FixResult) : Text :=
  r.files.flatMap fun file =>
    file.remaining.flatMap fun d => (f.diagnostic file.path d).trimEnd ++ ['\n']

/-- The line that sums repairs up. -/
def fixSummary (mode : FixMode) (r : FixResult) : String :=
  (if mode = .write then "Fixed " else "Would fix ") ++ toString r.filesModified ++ " file(s) with "
    ++ toString r.editsApplied ++ " edit(s); "
    ++ summarize r.remainingErrors r.remainingWarnings ++ " remaining\n"

/-- Repair files and say what came of it. -/
def runFix (l : Linter) (f : Formatter) (colored : Bool) (mode : FixMode) (tree : FileTree)
    (paths : List String) : Except Fault Execution :=
  (l.fixFiles mode tree paths).map fun (r, files) =>
    { code := r.exitCode
      stdout := (if mode = .diff then r.diffs else []) ++ remainingLines f r
      stderr := (fixSummary mode r).toList ++ r.errors.flatMap (errorLine colored)
      files }

/-- Lint files and report. -/
def runLint (l : Linter) (f : Formatter) (tree : FileTree) (paths : List String) :
    Except Fault Execution :=
  (l.lint tree paths).map fun r =>
    { code := r.exitCode
      stdout := f.report r ++ (if l.config.format = .json then ['\n'] else [])
      files := tree }

/-- The exit code that problems lead to, or 0 when they are not to count. -/
def Execution.forgiven (o : Execution) (inv : Invocation) : Execution :=
  if inv.has .exitZero then { o with code := 0 } else o

/-- The outcome of a failure. -/
def failed (colored : Bool) (e : Failure) (tree : FileTree) : Execution :=
  { code := 2, stderr := errorLine colored e.message, files := tree }

/-- Run what a command line asks for. -/
def run (inv : Invocation) (readers : Readers) (tree : FileTree) (home : Option String) :
    Except Fault Execution :=
  if inv.has .listCodes then .ok { code := 0, stdout := codeList, files := tree }
  else
    match inv.loadConfig readers tree home with
    | .error e => .ok (failed false e tree)
    | .ok config =>
      let l : Linter := { config }
      let colored := inv.isColored config
      let f := Formatter.ofFormat config.format colored
      match inv.findFiles l readers tree with
      | .error e => .ok (failed colored e tree)
      | .ok paths =>
        let o := match inv.fixMode? with
          | some mode => runFix l f colored mode tree paths
          | none => runLint l f tree paths
        o.map (·.forgiven inv)

/-- The name and version of the program. -/
def versionLine : String := "merlint 0.1.0\n"

/-- How the program is used. -/
def helpText : String :=
  "Lint and auto-fix flowchart, pie and sequence diagram sources.\n\n"
    ++ "Usage: merlint [OPTIONS] [FILES]...\n"

/-- Run arguments. -/
def runArguments (args : List String) (readers : Readers) (tree : FileTree)
    (home : Option String) : Except Fault (Except UsageError Execution) :=
  match read args with
  | .ok inv => (run inv readers tree home).map .ok
  | .error .help => .ok (.ok { code := 0, stdout := helpText.toList, files := tree })
  | .error .version => .ok (.ok { code := 0, stdout := versionLine.toList, files := tree })
  | .error (.usage e) => .ok (.error e)

end DiagramLint.CommandLine
