/-!
Nested blocks out of a flat run of events. The statements of a diagram come one after the other;
some open a block, some close the innermost one, some add a branch to it. The blocks still open
are kept innermost first, each with the statements that stood before it.
-/

namespace DiagramLint

/-- What a statement does to the nesting: `β` describes an open block, `σ` is a finished
statement, `ε` an error. -/
inductive BlockEvent (β σ ε : Type) where
  /-- A block begins. -/
  | opened (block : β)
  /-- The innermost block ends; `unmatched` is reported when none is open. -/
  | closed (unmatched : ε)
  /-- A statement stands here. -/
  | placed (statement : σ)
  /-- The innermost block changes; `outside` is reported when it does not allow that. -/
  | branched (change : β → Option β) (outside : ε)

/-- The statements of the innermost open block, and the open blocks with what stood before
each. -/
structure Nesting (β σ : Type) where
  current : List σ := []
  blocks : List (β × List σ) := []

namespace Nesting

variable {β σ ε : Type}

/-- The nesting after an event and the error it brings about; `wrap` makes a statement of a block
and its body. -/
def step (wrap : β → List σ → σ) (n : Nesting β σ) : BlockEvent β σ ε → Nesting β σ × List ε
  | .opened block => (⟨[], (block, n.current) :: n.blocks⟩, [])
  | .closed unmatched =>
    match n.blocks with
    | [] => (n, [unmatched])
    | (block, outer) :: blocks => (⟨outer ++ [wrap block n.current], blocks⟩, [])
  | .placed statement => (⟨n.current ++ [statement], n.blocks⟩, [])
  | .branched change outside =>
    match n.blocks with
    | [] => (n, [outside])
    | (block, outer) :: blocks =>
      match change block with
      | some block => (⟨n.current, (block, outer) :: blocks⟩, [])
      | none => (n, [outside])

/-- The statements at the top level once every open block is closed where the text ends. -/
def unwind (wrap : β → List σ → σ) (current : List σ) : List (β × List σ) → List σ
  | [] => current
  | (block, outer) :: blocks => unwind wrap (outer ++ [wrap block current]) blocks

/-- The nesting after a run of statements, and all errors in order: those an event brings about
come before those of the statement itself. -/
def run (wrap : β → List σ → σ) (n : Nesting β σ) :
    List (Option (BlockEvent β σ ε) × List ε) → Nesting β σ × List ε
  | [] => (n, [])
  | (event, errors) :: rest =>
    let (n, own) := match event with
      | none => (n, [])
      | some event => n.step wrap event
    let (final, later) := run wrap n rest
    (final, own ++ errors ++ later)

end Nesting

end DiagramLint
