import DiagramLint.Repair.Pass

/-!
Repairing until nothing changes: lint, repair, lint again, for a bounded number of passes.
-/

namespace DiagramLint

/-- The largest number of passes. -/
def maxPasses : Nat := 5

/-- What repairing a text came to. -/
structure Outcome where
  /-- The text after the last pass. -/
  fixed : Text
  /-- What linting that text reports. -/
  errors : List Diagnostic
  /-- The passes that changed the text. -/
  passes : Nat
  /-- The edits of those passes. -/
  editsApplied : Nat
  deriving DecidableEq, Repr

/-- The edits of a pass over a text with diagnostics, and the text with them applied. -/
def repairOnce (registry : Registry) (level : Level) (t : Text) (diagnostics : List Diagnostic) :
    Except Fault (List Edit × Text) := do
  let edits ← selectEdits registry t diagnostics level
  match t.applyEdits edits with
  | some next => return (edits, next)
  | none => .error .outside

/-- Repeat passes while they change the text, `left` of them at most; `passes` and `applied` count
what was done before. Linting may have effects of its own, such as being counted. -/
def convergeFromM {m : Type → Type} [Monad m] [MonadLiftT (Except Fault) m]
    (lint : Text → m (List Diagnostic)) (registry : Registry) (level : Level) :
    (left passes applied : Nat) → Text → m Outcome
  | 0, passes, applied, t => do
    let diagnostics ← lint t
    return ⟨t, diagnostics, passes, applied⟩
  | left + 1, passes, applied, t => do
    let diagnostics ← lint t
    let (edits, next) ← liftM (repairOnce registry level t diagnostics)
    if next = t then return ⟨t, diagnostics, passes, applied⟩
    else convergeFromM lint registry level left (passes + 1) (applied + edits.length) next

/-- Repair a text until a pass leaves it unchanged or the passes are used up. -/
def convergeM {m : Type → Type} [Monad m] [MonadLiftT (Except Fault) m]
    (lint : Text → m (List Diagnostic)) (registry : Registry) (t : Text) (level : Level) :
    m Outcome :=
  convergeFromM lint registry level maxPasses 0 0 t

/-- Repair a text with a linter that has no effects. -/
def converge (lint : Text → Except Fault (List Diagnostic)) (registry : Registry) (t : Text)
    (level : Level) : Except Fault Outcome :=
  convergeM lint registry t level

end DiagramLint
