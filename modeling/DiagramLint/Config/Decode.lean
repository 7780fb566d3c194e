import DiagramLint.Config.Basic
import DiagramLint.Yaml.Reader

/-!
Configurations written in JSON or YAML. Both are decoded by one function over the few readings
that a value of either format admits.
-/

namespace DiagramLint

/-- The readings of the values of a format. -/
structure ValueFormat (α : Type) where
  string? : α → Option String
  bool? : α → Option Bool
  count? : α → Option Nat
  items? : α → Option (List α)
  /-- The fields of a record with these names; each occurs at most once. -/
  record? : List String → α → Option (List (String × α))
  /-- The entries of a record with any names. -/
  entries? : α → Option (List (String × α))
  /-- The name of a choice. -/
  choice? : α → Option String
  /-- A free value. -/
  value? : α → Option Json

namespace Json

mutual

/-- Whether no object inside a value names a field twice. -/
def hasDistinctNames : Json → Bool
  | .array items => itemsHaveDistinctNames items
  | .object fields =>
    (fields.map (·.1)).eraseDups.length == fields.length && fieldsHaveDistinctNames fields
  | _ => true

/-- `hasDistinctNames` of every item. -/
def itemsHaveDistinctNames : List Json → Bool
  | [] => true
  | v :: rest => hasDistinctNames v && itemsHaveDistinctNames rest

/-- `hasDistinctNames` of every field. -/
def fieldsHaveDistinctNames : List (String × Json) → Bool
  | [] => true
  | (_, v) :: rest => hasDistinctNames v && fieldsHaveDistinctNames rest

end

/-- The name of a choice: a string, or the single name of an object that holds null. -/
def choiceName? : Json → Option String
  | .string s => some s
  | .object [(name, .null)] => some name
  | _ => none

/-- How JSON values are read. -/
def valueFormat : ValueFormat Json where
  string? := string?
  bool? := bool?
  count? := count?
  items? := array?
  record? := record?
  entries? := object?
  choice? := choiceName?
  value? v := if v.hasDistinctNames then some v else none

end Json

namespace Yaml

/-- The entries of a mapping whose keys are scalars. -/
def namedEntries? (v : Yaml) : Option (List (String × Yaml)) := do
  (← v.entries?).mapM fun (key, value) => do return (← key.string?, value)

/-- The fields of a record with some names; each occurs at most once. -/
def record? (names : List String) (v : Yaml) : Option (List (String × Yaml)) := do
  let known := (← v.namedEntries?).filter fun field => names.contains field.1
  if (known.map (·.1)).eraseDups.length = known.length then some known else none

/-- How YAML values are read. -/
def valueFormat : ValueFormat Yaml where
  string? := string?
  bool? := bool?
  count? := count?
  items? := items?
  record? := record?
  entries? := namedEntries?
  choice? := string?
  value? := toJson?

end Yaml

namespace ValueFormat

/-- A field that may be missing. -/
def field (fields : List (String × α)) (name : String) (value : β) (decode : α → Option β) :
    Option β :=
  match fields.lookup name with
  | none => some value
  | some v => decode v

/-- The section with a name, which may be missing, as a record with these fields. -/
def section? (f : ValueFormat α) (fields : List (String × α)) (name : String)
    (names : List String) : Option (List (String × α)) :=
  field fields name [] (f.record? names)

/-- A list of strings. -/
def strings? (f : ValueFormat α) (v : α) : Option (List String) := do
  (← f.items? v).mapM f.string?

/-- One of several choices. -/
def oneOf? (f : ValueFormat α) (choices : List (String × β)) (v : α) : Option β := do
  choices.lookup (← f.choice? v)

/-- Named values; of several with a name the last counts. -/
def named? (f : ValueFormat α) (decode : α → Option β) (v : α) : Option (Named β) := do
  let entries ← (← f.entries? v).mapM fun (name, value) => do return (name, ← decode value)
  return .ofEntries entries

/-- The configuration a value spells. What is missing has its default, and unknown names are
passed over. -/
def config? (f : ValueFormat α) (v : α) : Option Config := do
  let fields ← f.record? ["extends", "engine", "lint", "fix", "output", "files", "rules"] v
  let engine ← f.section? fields "engine" ["parallel", "jobs"]
  let lint ← f.section? fields "lint" ["strict", "settings"]
  let fix ← f.section? fields "fix" ["level"]
  let output ← f.section? fields "output" ["format", "color"]
  let files ← f.section? fields "files" ["include", "exclude"]
  let rules ← f.section? fields "rules" ["disabled", "ignore", "severity"]
  let default : Config := {}
  return {
    bases := ← field fields "extends" default.bases f.strings?
    parallel := ← field engine "parallel" default.parallel f.bool?
    jobs := ← field engine "jobs" default.jobs f.count?
    strict := ← field lint "strict" default.strict f.bool?
    settings := ← field lint "settings" default.settings (f.named? f.value?)
    level := ← field fix "level" default.level (f.oneOf? Level.byName)
    format := ← field output "format" default.format (f.oneOf? OutputFormat.byName)
    color := ← field output "color" default.color (f.oneOf? ColorMode.byName)
    included := ← field files "include" default.included f.strings?
    excluded := ← field files "exclude" default.excluded f.strings?
    disabled := ← field rules "disabled" default.disabled f.strings?
    ignored := ← field rules "ignore" default.ignored f.strings?
    severities := ← field rules "severity" default.severities
      (f.named? (f.oneOf? Severity.byName)) }

end ValueFormat

namespace Config

/-- The configuration a JSON value spells. -/
def ofJson? : Json → Option Config := Json.valueFormat.config?

/-- The configuration a YAML value spells. -/
def ofYaml? : Yaml → Option Config := Yaml.valueFormat.config?

end Config

end DiagramLint
