import DiagramLint.Machine
import DiagramLint.Text.Basic

/-!
Entities: characters that a label must not hold are written in an encoded form. Forms already
encoded are left alone, so that encoding twice is encoding once.
-/

namespace DiagramLint

/-- A raw form and its encoded form. -/
structure EncodeRule where
  raw : Text
  encoded : Text
  deriving DecidableEq, Repr

/-- A text with every raw form encoded and every encoded form copied; of several forms at one
place, that of the earliest rule. The first `skip` characters belong to a form written already.
Copying an empty form leads no further. -/
def encodeFrom (rules : List EncodeRule) : (skip : Nat) → Text → Except Fault Text
  | _, [] => .ok []
  | skip + 1, _ :: rest => encodeFrom rules skip rest
  | 0, c :: rest =>
    match rules.find? fun r => r.encoded.isPrefixOf (c :: rest) with
    | some r =>
      if r.encoded.isEmpty then .error .endless
      else (encodeFrom rules (r.encoded.length - 1) rest).map (r.encoded ++ ·)
    | none =>
      match rules.find? fun r => !r.raw.isEmpty && r.raw.isPrefixOf (c :: rest) with
      | some r => (encodeFrom rules (r.raw.length - 1) rest).map (r.encoded ++ ·)
      | none => (encodeFrom rules 0 rest).map (c :: ·)

/-- A text with every raw form encoded. -/
def encodeEntities (rules : List EncodeRule) (t : Text) : Except Fault Text := encodeFrom rules 0 t

end DiagramLint
