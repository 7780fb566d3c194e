import DiagramLint.Diagnostic
import DiagramLint.Grammar
import DiagramLint.Repair.Level

/-!
Configurations: which files are linted, what is reported and how, and how far repairs go.

Configurations are combined by `merge`, in which the later one takes precedence where it says
something; each field has its own way of saying nothing.
-/

namespace DiagramLint

/-! ## Choices -/

/-- The layouts of a report. -/
inductive OutputFormat where
  | text
  | json
  | compact
  deriving DecidableEq, Repr, Inhabited

namespace OutputFormat

/-- The written name. -/
def name : OutputFormat → String
  | text => "text"
  | json => "json"
  | compact => "compact"

/-- Every format by its name. -/
def byName : List (String × OutputFormat) := [text, json, compact].map fun f => (f.name, f)

/-- The format a user names, in any case. -/
def ofName? (s : String) : Except String OutputFormat :=
  match byName.lookup (lowercase s) with
  | some f => .ok f
  | none => .error ("Unknown output format: " ++ s)

end OutputFormat

/-- When a report is colored. -/
inductive ColorMode where
  /-- When it goes to a terminal. -/
  | auto
  | always
  | never
  deriving DecidableEq, Repr, Inhabited

namespace ColorMode

/-- The written name. -/
def name : ColorMode → String
  | auto => "auto"
  | always => "always"
  | never => "never"

/-- Every mode by its name. -/
def byName : List (String × ColorMode) := [auto, always, never].map fun m => (m.name, m)

end ColorMode

/-! ## Named values -/

/-- Values by name; a name occurs once. -/
abbrev Named (α : Type) := List (String × α)

namespace Named

/-- The values of `a` that `b` does not name, and those of `b`. -/
def override (a b : Named α) : Named α :=
  a.filter (fun entry => !b.any (·.1 == entry.1)) ++ b

/-- The named values of some entries, of which the last with a name counts. -/
def ofEntries (entries : List (String × α)) : Named α :=
  entries.foldl (fun named entry => override named [entry]) []

end Named

/-! ## Configurations -/

/-- A configuration. -/
structure Config where
  /-- The presets and other configuration files this one builds on. -/
  bases : List String := []
  /-- Whether files are linted in parallel. -/
  parallel : Bool := true
  /-- The number of workers; 0 is one for each processor. -/
  jobs : Nat := 0
  /-- Report lenient findings as errors. -/
  strict : Bool := false
  /-- Free settings for the dialects. -/
  settings : Named Json := []
  /-- How far repairs go. -/
  level : Level := .safe
  format : OutputFormat := .text
  color : ColorMode := .auto
  /-- Patterns of the files found in a directory that are linted. -/
  included : List String := ["**/*.mmd", "**/*.mermaid"]
  /-- Patterns of the files that are left out. -/
  excluded : List String := ["**/node_modules/**", "**/target/**"]
  /-- Codes that are not reported. -/
  disabled : List String := []
  /-- Starts of codes that are not reported, in any case. -/
  ignored : List String := []
  /-- Severities by code, in place of the usual ones. -/
  severities : Named Severity := []
  deriving Inhabited

namespace Config

/-- The configuration that asks for strict linting. -/
def strictPreset : Config := { strict := true }

/-- The preset with a name. -/
def preset? (name : String) : Option Config :=
  if name = "recommended" then some {} else if name = "strict" then some strictPreset else none

/-- The strings of `b` that are new, each once, behind those of `a`. -/
def union (a b : List String) : List String :=
  b.foldl (fun all s => if all.contains s then all else all ++ [s]) a

/-- Two configurations in one; `b` takes precedence. What `b` builds on is left to `a`. -/
def merge (a b : Config) : Config where
  bases := a.bases
  parallel := b.parallel
  jobs := if b.jobs = 0 then a.jobs else b.jobs
  strict := a.strict || b.strict
  settings := a.settings.override b.settings
  level := if b.level = .safe then a.level else b.level
  format := if b.format = .text then a.format else b.format
  color := if b.color = .auto then a.color else b.color
  included := union a.included b.included
  excluded := union a.excluded b.excluded
  disabled := a.disabled ++ b.disabled
  ignored := a.ignored ++ b.ignored
  severities := a.severities.override b.severities

/-- What a command line says beside a configuration file. -/
structure Overrides where
  format : Option OutputFormat := none
  strict : Bool := false
  level : Option Level := none
  jobs : Option Nat := none
  disabled : List String := []
  ignored : List String := []
  deriving Inhabited

/-- The configuration under the overrides of a command line. -/
def withOverrides (c : Config) (o : Overrides) : Config :=
  { c with
    format := o.format.getD c.format
    strict := c.strict || o.strict
    level := o.level.getD c.level
    jobs := o.jobs.getD c.jobs
    disabled := c.disabled ++ o.disabled
    ignored := c.ignored ++ o.ignored }

/-! ## What a configuration says of a code -/

/-- What the dialects are told. -/
def lintOptions (c : Config) : LintOptions := ⟨c.strict, c.settings⟩

/-- Whether a code starts with an ignored start, in any case. -/
def isIgnored (c : Config) (code : String) : Bool :=
  c.ignored.any fun start => (uppercase start).toList.isPrefixOf (uppercase code).toList

/-- Whether a code is reported. -/
def isEnabled (c : Config) (code : String) : Bool :=
  !c.disabled.contains code && !c.isIgnored code

/-- The severity set for a code. -/
def severity? (c : Config) (code : String) : Option Severity := c.severities.lookup code

/-! ## As JSON -/

/-- The configuration as a JSON object with all its sections. -/
def toJson (c : Config) : Json :=
  let strings (items : List String) : Json := .array (items.map .string)
  .object
    [("extends", strings c.bases),
      ("engine", .object [("parallel", .bool c.parallel), ("jobs", .ofNat c.jobs)]),
      ("lint", .object [("strict", .bool c.strict), ("settings", .object c.settings)]),
      ("fix", .object [("level", c.level.toJson)]),
      ("output", .object [("format", .string c.format.name), ("color", .string c.color.name)]),
      ("files", .object [("include", strings c.included), ("exclude", strings c.excluded)]),
      ("rules", .object
        [("disabled", strings c.disabled), ("ignore", strings c.ignored),
          ("severity", .object (c.severities.map fun (code, s) => (code, s.toJson)))])]

end Config

end DiagramLint
