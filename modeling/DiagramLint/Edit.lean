import DiagramLint.Json.Basic
import DiagramLint.Position

/-!
Edits of a text and their application. An edit names the place it replaces by positions; it is
resolved to a range of byte offsets against the text it was made for. A batch is applied from the
end of the text toward its start, so that no edit moves the range of one still to come.
-/

namespace DiagramLint

/-- A range of byte offsets; empty when both ends agree. -/
structure ByteRange where
  start : Nat
  stop : Nat
  deriving DecidableEq, Repr, Inhabited

namespace ByteRange

/-- Whether two ranges collide: two empty ranges do when they are equal, any others when they
share the inside of both. -/
def overlaps (a b : ByteRange) : Bool :=
  if a.start = a.stop ∧ b.start = b.stop then a.start = b.start
  else a.start < b.stop && b.start < a.stop

/-- The order in which edits are applied: the later start first, then the later end. -/
def comesFirst (a b : ByteRange) : Bool :=
  b.start < a.start || (a.start == b.start && b.stop ≤ a.stop)

end ByteRange

namespace Position

/-- A position as a JSON object. -/
def toJson (p : Position) : Json :=
  .object [("line", .ofNat p.line), ("column", .ofNat p.column)]

/-- The position a JSON value spells. -/
def ofJson? (v : Json) : Option Position := do
  let fields ← v.record? ["line", "column"]
  return ⟨← Json.required Json.count? fields "line", ← Json.required Json.count? fields "column"⟩

end Position

/-- Replace what stands from `start` up to `stop` by `newText`. Without a `stop` the edit
inserts. -/
structure Edit where
  start : Position
  stop : Option Position
  newText : Text
  deriving DecidableEq, Repr, Inhabited

namespace Edit

/-- The insertion of a text. -/
def insert (place : Position) (newText : Text) : Edit := ⟨place, none, newText⟩

/-- The replacement of what stands between two positions. -/
def replace (start stop : Position) (newText : Text) : Edit := ⟨start, some stop, newText⟩

/-- The replacement of `length` characters of one line. -/
def replaceSpan (line column length : Nat) (newText : Text) : Edit :=
  replace ⟨line, column⟩ ⟨line, column + length⟩ newText

/-- Where the edit ends; an insertion ends where it starts. -/
def ending (edit : Edit) : Position := edit.stop.getD edit.start

/-- The byte range an edit replaces in `t`, its ends put in order. -/
def resolve (t : Text) (edit : Edit) : ByteRange :=
  let a := t.offset edit.start
  let b := t.offset edit.ending
  ⟨min a b, max a b⟩

/-! ## As JSON -/

/-- An edit as a JSON object; an insertion has no end. -/
def toJson (edit : Edit) : Json :=
  .object <|
    [("start", edit.start.toJson)]
    ++ (edit.stop.map fun p => ("end", p.toJson)).toList
    ++ [("newText", .string (String.ofList edit.newText))]

/-- The edit a JSON value spells. -/
def ofJson? (v : Json) : Option Edit := do
  let fields ← v.record? ["start", "end", "newText"]
  return {
    start := ← Json.required Position.ofJson? fields "start"
    stop := ← Json.optional Position.ofJson? fields "end"
    newText := (← Json.required Json.string? fields "newText").toList }

end Edit

namespace Text

/-- `t` with a byte range replaced; none when an end of the range lies outside the text or inside
a character. -/
def replaceRange (t : Text) (range : ByteRange) (newText : Text) : Option Text := do
  let (before, rest) ← t.splitAtByte range.start
  let (_, after) ← rest.splitAtByte (range.stop - range.start)
  return before ++ newText ++ after

/-- `t` with a batch of edits applied. Every edit is resolved against `t`; each then replaces its
range in the text as the edits behind it have left it. There is no result when such a range no
longer lies on characters of that text, which only colliding edits bring about. -/
def applyEdits (t : Text) (edits : List Edit) : Option Text :=
  let resolved := edits.map fun edit => (edit.resolve t, edit.newText)
  (resolved.mergeSort fun a b => a.1.comesFirst b.1).foldlM
    (fun buffer (range, newText) => buffer.replaceRange range newText) t

end Text

end DiagramLint
