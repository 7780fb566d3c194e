import DiagramLint.Text.Lines

/-!
Positions and byte offsets. A position is a line and a column, both counted from one, the column
in characters; an offset counts bytes. No conversion fails: what lies outside the text is moved
to its nearest place first.
-/

namespace DiagramLint

/-- A line and a column, both counted from one. -/
structure Position where
  line : Nat
  column : Nat
  deriving DecidableEq, Repr, Inhabited

namespace Text

/-- The bytes of a line before a column. -/
def byteOfColumn (line : Text) (column : Nat) : Nat := byteSize (line.take (column - 1))

/-- A position moved into the text: onto an existing line and at most one past its last
character. -/
def clamp (t : Text) (p : Position) : Position :=
  let line := t.clampLine p.line
  ⟨line, max 1 (min p.column ((t.line line).width + 1))⟩

/-- The byte offset of a position. -/
def offset (t : Text) (p : Position) : Nat :=
  let p := t.clamp p
  let line := t.line p.line
  line.start + byteOfColumn line.content p.column

/-- The position of a byte offset. An offset inside a terminator belongs to the end of its line,
one inside a character to the next character. -/
def position (t : Text) (offset : Nat) : Position :=
  let offset := min offset t.byteSize
  let index := (t.lines.takeWhile fun line => line.start ≤ offset).length - 1
  let line := t.lines.getD index ⟨0, []⟩
  ⟨index + 1, charsBefore (min offset line.stop - line.start) line.content + 1⟩

end Text

end DiagramLint
