import DiagramLint.Position

/-!
A cursor reads a text from its start and keeps the line and the column it has reached. Every
reading is a number of characters taken from the rest of the text.
-/

namespace DiagramLint

/-- The text still to be read, and the position of its first character. -/
structure Cursor where
  rest : Text
  line : Nat := 1
  column : Nat := 1
  deriving DecidableEq, Repr

namespace Cursor

/-- The cursor at the start of a text. -/
def ofText (t : Text) : Cursor := { rest := t }

/-- The position reached. -/
def place (s : Cursor) : Position := ⟨s.line, s.column⟩

/-- Whether nothing is left. -/
def isEof (s : Cursor) : Bool := s.rest.isEmpty

/-- The cursor one character further; a line feed starts the next line. -/
def next (s : Cursor) : Cursor :=
  match s.rest with
  | [] => s
  | c :: rest => if c = '\n' then ⟨rest, s.line + 1, 1⟩ else ⟨rest, s.line, s.column + 1⟩

/-- The cursor `n` characters further, or at the end of the text. -/
def skip (s : Cursor) : Nat → Cursor
  | 0 => s
  | n + 1 => s.next.skip n

/-- The next `n` characters, or all that are left. -/
def take (s : Cursor) (n : Nat) : Text × Cursor := (s.rest.take n, s.skip n)

/-- The longest run of characters that satisfy `p`. -/
def takeWhile (s : Cursor) (p : Char → Bool) : Text × Cursor :=
  s.take (s.rest.takeWhile p).length

/-- Spaces, tabs and carriage returns separate tokens. -/
def isBlankChar (c : Char) : Bool := c == ' ' || c == '\t' || c == '\r'

/-- The cursor behind spaces, tabs and carriage returns. -/
def skipBlanks (s : Cursor) : Cursor := (s.takeWhile isBlankChar).2

/-- What is left of the line in a text, without the carriage returns at its end. -/
def lineRest (t : Text) : Text := Text.dropEndWhile (· == '\r') (t.takeWhile (· != '\n'))

/-- What is left of the current line. -/
def restOfLine (s : Cursor) : Text := lineRest s.rest

/-- What is left of the current line, and the cursor at its line feed. -/
def takeLine (s : Cursor) : Text × Cursor := (s.restOfLine, (s.takeWhile (· != '\n')).2)

/-- Whether only white space is left on the line. -/
def atLineEnd (s : Cursor) : Bool := s.restOfLine.isBlank

/-- The cursor behind `t`, if the rest starts with it. -/
def eat? (s : Cursor) (t : Text) : Option Cursor :=
  if t.isPrefixOf s.rest then some (s.skip t.length) else none

/-! ## How far a reading goes -/

theorem next_rest (s : Cursor) : s.next.rest = s.rest.drop 1 := by
  unfold next
  cases h : s.rest with
  | nil => simp [h]
  | cons c rest => by_cases hc : c = '\n' <;> simp [hc]

/-- Skipping drops exactly the characters skipped. -/
@[simp] theorem skip_rest (s : Cursor) (n : Nat) : (s.skip n).rest = s.rest.drop n := by
  induction n generalizing s with
  | zero => simp [skip]
  | succ n ih => simp [skip, ih, next_rest]

end Cursor

end DiagramLint
