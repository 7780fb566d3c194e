import DiagramLint.Repair.Proposal

/-!
Repair of brackets: a wrong closing bracket is replaced by the one that fits, a missing one is
inserted.
-/

namespace DiagramLint

/-- A bracket shape: what opens it and what closes it. -/
structure Shape where
  opener : Text
  closer : Text
  deriving DecidableEq, Repr

namespace Shape

/-- Whether a character occurs in an opening bracket. -/
def opens (shapes : List Shape) (c : Char) : Bool := shapes.any (·.opener.contains c)

/-- Whether a character occurs in a closing bracket. -/
def closes (shapes : List Shape) (c : Char) : Bool := shapes.any (·.closer.contains c)

/-- From the last character of the unmatched opening bracket back to the start of the line, when
`depth` closing brackets are to be matched first; the text is read backwards. -/
def unmatchedOpener? (shapes : List Shape) : (depth : Nat) → (reversed : Text) → Option Text
  | _, [] => none
  | depth, c :: rest =>
    if closes shapes c && !opens shapes c then unmatchedOpener? shapes (depth + 1) rest
    else if opens shapes c then
      match depth with
      | 0 => some (c :: rest)
      | depth + 1 => unmatchedOpener? shapes depth rest
    else unmatchedOpener? shapes depth rest

/-- The longer of two shapes; the second wins a tie. -/
def longer (best : Option Shape) (s : Shape) : Option Shape :=
  match best with
  | none => some s
  | some b => if b.opener.length ≤ s.opener.length then some s else some b

/-- The shape left open before a place: the longest one whose opening bracket ends with the
unmatched character, and the index behind it. -/
def unmatched? (shapes : List Shape) (c : Caret) : Option (Nat × Shape) := do
  let back ← unmatchedOpener? shapes 0 c.before.reverse
  let shape ← (shapes.filter fun s => s.opener.reverse.isPrefixOf back).foldl longer none
  return (back.length, shape)

end Shape

/-- Repair the brackets around a diagnostic. Closing brackets it spans are replaced, unless they
are right; else the closing bracket is inserted behind the last character before it. -/
def repairBracket (shapes : List Shape) (t : Text) (d : Diagnostic) :
    Except Fault (Option Proposal) :=
  match Caret.of? t d with
  | none => .ok none
  | some c =>
    match Shape.unmatched? shapes c with
    | none => .ok none
    | some (openEnd, shape) =>
      (c.span d).map fun span =>
        if !span.isEmpty && span.all (Shape.closes shapes) then
          if span = shape.closer then none
          else some (.safe (.replaceSpan d.line (c.index + 1) span.length shape.closer))
        else
          let column := max openEnd (c.index - c.countBefore isWhiteSpace)
          some (.atLevel .all (.insert ⟨d.line, min column c.index + 1⟩ shape.closer))

end DiagramLint
