import DiagramLint.Json.Basic
import DiagramLint.Text.Casing

/-!
The two severities of a finding.
-/

namespace DiagramLint

/-- How bad a finding is. -/
inductive Severity where
  | warning
  | error
  deriving DecidableEq, Repr, Inhabited

namespace Severity

/-- The severity of a check that is lenient unless linting is strict. -/
def forMode (strict : Bool) : Severity := if strict then .error else .warning

/-- The written name. -/
def name : Severity → String
  | .warning => "warning"
  | .error => "error"

/-- The severity a user names, in any case and possibly shortened. -/
def ofName? (s : String) : Option Severity :=
  match lowercase s with
  | "warning" | "warn" => some .warning
  | "error" | "err" => some .error
  | _ => none

/-- Every severity by its name. -/
def byName : List (String × Severity) := [warning, error].map fun s => (s.name, s)

/-- The severity a JSON value names exactly. -/
def ofJson? : Json → Option Severity := Json.choice? byName

/-- The severity as a JSON value. -/
def toJson (s : Severity) : Json := .string s.name

end Severity

end DiagramLint
