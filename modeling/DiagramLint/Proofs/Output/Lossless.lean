-- The record of a report loses nothing. Whatever is reported, its record is
-- one JSON value in every layout, and the value tells all of it: the files in
-- order with their dialects and diagnostics, what is absent apart from what
-- is there, and every total.
import DiagramLint.Output.Formatter
import DiagramLint.Proofs.Json.RoundTrip

namespace DiagramLint

/-! ## What a value tells -/

namespace Json

/-- The natural number a value is, of any size. -/
def natural? : Json → Option Nat
  | .number (.integer (.ofNat n)) => some n
  | _ => none

/-- What an object tells under a name it must have. -/
def told? (decode : Json → Option α) (name : String) (v : Json) : Option α :=
  (v.field? name).bind decode

/-- What an object tells under a name it need not have. -/
def toldIfAny? (decode : Json → Option α) (name : String) (v : Json) : Option (Option α) :=
  match v.field? name with
  | none => some none
  | some w => (decode w).map some

end Json

/-- The diagnostic that a value tells. -/
def Diagnostic.told? (v : Json) : Option Diagnostic := do
  return {
    line := ← v.told? Json.natural? "line"
    column := ← v.told? Json.natural? "column"
    message := ← v.told? Json.string? "message"
    severity := ← v.told? Severity.ofJson? "severity"
    code := ← v.toldIfAny? Json.string? "code"
    hint := ← v.toldIfAny? Json.string? "hint"
    length := ← v.toldIfAny? Json.natural? "length" }

/-- The report of a file that a value tells. -/
def FileReport.told? (v : Json) : Option FileReport := do
  return {
    path := ← v.told? Json.string? "path"
    dialect := ← v.toldIfAny? Json.string? "dialect"
    diagnostics := ← (← v.told? Json.array? "diagnostics").mapM Diagnostic.told? }

/-- The result that a value tells. -/
def LintResult.told? (v : Json) : Option LintResult := do
  let summary ← v.field? "summary"
  return {
    files := ← (← v.told? Json.array? "files").mapM FileReport.told?
    filesProcessed := ← summary.told? Json.natural? "files_processed"
    filesWithErrors := ← summary.told? Json.natural? "files_with_errors"
    filesWithWarnings := ← summary.told? Json.natural? "files_with_warnings"
    errors := ← summary.told? Json.natural? "error_count"
    warnings := ← summary.told? Json.natural? "warning_count"
    duration := ← summary.told? Json.natural? "duration_ms" }

/-! ## Fields -/

namespace Json

@[simp] theorem natural?_ofNat (n : Nat) : natural? (ofNat n) = some n := rfl

@[simp] theorem string?_string (s : String) : string? (.string s) = some s := rfl

@[simp] theorem array?_array (items : List Json) : array? (.array items) = some items := rfl

end Json

theorem Severity.ofJson?_toJson (s : Severity) : Severity.ofJson? s.toJson = some s := by
  cases s <;> decide +kernel

/-- What is absent is told apart from what is there, since only what is there is written. -/
theorem Diagnostic.told?_toJson (d : Diagnostic) : Diagnostic.told? d.toJson = some d := by
  obtain ⟨line, column, message, severity, code, hint, length⟩ := d
  cases code <;> cases hint <;> cases length <;>
    simp [Diagnostic.told?, Diagnostic.toJson, Diagnostic.toFields, Diagnostic.optionalField,
      Json.told?, Json.toldIfAny?, Json.field?, List.lookup_cons, Severity.ofJson?_toJson]

/-- The records of some things tell the things in order. -/
theorem mapM_told {α : Type} {toJson : α → Json} {told? : Json → Option α} {told : α → α}
    (h : ∀ a, told? (toJson a) = some (told a)) (items : List α) :
    (items.map toJson).mapM told? = some (items.map told) := by
  induction items with
  | nil => rfl
  | cons a rest ih => simp [List.mapM_cons, h, ih]

/-- A record of a file tells everything but the text of the file. -/
def FileReport.withoutSource (f : FileReport) : FileReport := { f with source := none }

theorem FileReport.told?_toJson (f : FileReport) :
    FileReport.told? f.toJson = some f.withoutSource := by
  obtain ⟨path, dialect, diagnostics, source⟩ := f
  have hdiagnostics := mapM_told Diagnostic.told?_toJson diagnostics
  cases dialect <;>
    simp [FileReport.told?, FileReport.toJson, FileReport.withoutSource, Diagnostic.optionalField,
      Json.told?, Json.toldIfAny?, Json.field?, List.lookup_cons, hdiagnostics]

theorem LintResult.told?_toJson (r : LintResult) :
    LintResult.told? r.toJson = some { r with files := r.files.map FileReport.withoutSource } := by
  have hfiles := mapM_told FileReport.told?_toJson r.files
  simp [LintResult.told?, LintResult.toJson, LintResult.summaryJson, Json.told?, Json.field?,
    List.lookup_cons, hfiles]

/-! ## Nesting -/

/-- An array of records is nested one deeper than the records. -/
theorem depth_array_map {α : Type} {toJson : α → Json} {n : Nat} (h : ∀ a, (toJson a).depth ≤ n)
    (items : List α) : (Json.array (items.map toJson)).depth ≤ n + 1 := by
  rw [Json.depth, Nat.add_le_add_iff_right, Json.depthOfItems_le_iff]
  intro v hv
  obtain ⟨a, -, rfl⟩ := List.mem_map.mp hv
  exact h a

theorem Diagnostic.depth_toJson (d : Diagnostic) : d.toJson.depth ≤ 1 := by
  obtain ⟨line, column, message, severity, code, hint, length⟩ := d
  cases code <;> cases hint <;> cases length <;>
    simp [Diagnostic.toJson, Diagnostic.toFields, Diagnostic.optionalField, Severity.toJson,
      Json.ofNat, Json.depth, Json.depthOfFields]

theorem FileReport.depth_toJson (f : FileReport) : f.toJson.depth ≤ 3 := by
  have hdiagnostics := depth_array_map Diagnostic.depth_toJson f.diagnostics
  rw [Json.depth] at hdiagnostics
  cases hdialect : f.dialect <;>
    simp only [FileReport.toJson, hdialect, Diagnostic.optionalField, Option.map_none,
      Option.map_some, Option.toList_none, Option.toList_some, List.nil_append, List.cons_append,
      Json.depth, Json.depthOfFields]
  all_goals omega

theorem LintResult.depth_toJson (r : LintResult) : r.toJson.depth ≤ 5 := by
  have hfiles := depth_array_map FileReport.depth_toJson r.files
  simp only [LintResult.toJson, LintResult.summaryJson, Json.ofNat, Json.depth, Json.depthOfFields]
    at hfiles ⊢
  omega

/-! ## The law -/

/-- The record of a report loses nothing: in every layout, on one line or indented, its text
spells one and the same value, and the value tells every file in order with its path, its dialect
and its diagnostics, and every total. -/
theorem the_record_of_a_report_loses_nothing (r : LintResult) :
    ∃ v, (∀ layout, Json.read ((Formatter.record layout).report r) = some v) ∧
      LintResult.told? v = some { r with files := r.files.map FileReport.withoutSource } := by
  refine ⟨r.toJson, fun layout => ?_, r.told?_toJson⟩
  have hdepth : r.toJson.depth ≤ Json.maxDepth := r.depth_toJson.trans (by decide)
  exact Json.read_render layout hdepth

end DiagramLint
