import DiagramLint.Diff.Unified
import DiagramLint.Linter.Basic

/-!
Repairing files: only looking, writing them, or showing what would change. Whatever is done with a
repaired text, the same is reported.
-/

namespace DiagramLint

/-- What is done with repaired texts. -/
inductive FixMode where
  /-- Nothing. -/
  | preview
  /-- They are written back. -/
  | write
  /-- The difference is shown. -/
  | diff
  deriving DecidableEq, Repr, Inhabited

/-- What repairing one file came to. -/
structure FileFix where
  path : String
  changed : Bool
  passes : Nat
  editsApplied : Nat
  /-- What linting the repaired text reports. -/
  remaining : List Diagnostic
  /-- What changed, where that is shown. -/
  diff : Option Text := none
  deriving DecidableEq, Repr

/-- What repairing files came to. -/
structure FixResult where
  files : List FileFix := []
  filesModified : Nat := 0
  editsApplied : Nat := 0
  remainingErrors : Nat := 0
  remainingWarnings : Nat := 0
  /-- The files that could not be read, with the reasons. -/
  failures : List (String × ReadError) := []
  deriving DecidableEq, Repr

namespace FixResult

/-- The result with one more file. -/
def add (r : FixResult) (file : FileFix) : FixResult :=
  { r with
    files := r.files ++ [file]
    filesModified := r.filesModified + (if file.changed then 1 else 0)
    editsApplied := r.editsApplied + file.editsApplied
    remainingErrors := r.remainingErrors + errorCount file.remaining
    remainingWarnings := r.remainingWarnings + warningCount file.remaining }

/-- The result with one more file that could not be read. -/
def fail (r : FixResult) (path : String) (e : ReadError) : FixResult :=
  { r with failures := r.failures ++ [(path, e)] }

/-- The failures in words. -/
def errors (r : FixResult) : List String := r.failures.map fun (path, e) => path ++ ": " ++ e.message

/-- The exit code: 2 when errors are left or a file could not be read, 1 when warnings are left,
else 0. -/
def exitCode (r : FixResult) : Nat :=
  if 0 < r.remainingErrors ∨ r.failures ≠ [] then 2 else if 0 < r.remainingWarnings then 1 else 0

/-- What changed in all files, where that is shown. -/
def diffs (r : FixResult) : Text := (r.files.filterMap (·.diff)).flatten

end FixResult

namespace Linter

/-- What is reported of a file whose text `t` was repaired. -/
def fileFix (mode : FixMode) (path : String) (t : Text) (o : Outcome) : FileFix :=
  { path
    changed := o.fixed != t
    passes := o.passes
    editsApplied := o.editsApplied
    remaining := o.errors
    diff := if mode = .diff ∧ o.fixed ≠ t then some (Diff.unified path t o.fixed) else none }

/-- Repair one more file: the results so far and the tree with this file. -/
def fixPath (l : Linter) (mode : FixMode) (state : FixResult × FileTree) (path : String) :
    Except Fault (FixResult × FileTree) :=
  let (result, tree) := state
  match tree.read path with
  | .error e => .ok (result.fail path e, tree)
  | .ok t =>
    (l.fixText t).map fun o =>
      (result.add (fileFix mode path t o),
        if mode = .write ∧ o.fixed ≠ t then tree.write path o.fixed else tree)

/-- Repair files one after the other: what came of it, and the tree afterwards. -/
def fixFiles (l : Linter) (mode : FixMode) (tree : FileTree) (paths : List String) :
    Except Fault (FixResult × FileTree) :=
  paths.foldlM (l.fixPath mode) ({}, tree)

end Linter

end DiagramLint
