import DiagramLint.Text.Basic

/-!
The lines of a text. A line ends at a line feed; one carriage return right before the line feed
belongs to the terminator. A text always has a last line without a terminator, possibly empty.
-/

namespace DiagramLint

/-- A line: the byte offset where it starts and its characters without the terminator. -/
structure Line where
  start : Nat
  content : Text
  deriving DecidableEq, Repr, Inhabited

namespace Line

/-- The byte offset just past the last character of the line. -/
def stop (line : Line) : Nat := line.start + line.content.byteSize

/-- The number of characters of the line. -/
def width (line : Line) : Nat := line.content.length

end Line

namespace Text

/-- The pieces of a text between its line feeds. -/
def pieces (t : Text) : List Text := t.splitWhere (· == '\n')

/-- A terminated piece without the carriage return of its terminator. -/
def dropReturn (piece : Text) : Text :=
  if piece.getLast? = some '\r' then piece.dropLast else piece

/-- The lines made of `pieces`, the first of them starting at byte `start`. -/
def linesFrom (start : Nat) : List Text → List Line
  | [] => []
  | [last] => [⟨start, last⟩]
  | piece :: rest => ⟨start, dropReturn piece⟩ :: linesFrom (start + piece.byteSize + 1) rest

/-- The lines of a text, in order. -/
def lines (t : Text) : List Line := linesFrom 0 t.pieces

/-- The number of lines; an empty text has one empty line. -/
def lineCount (t : Text) : Nat := t.lines.length

/-- A line number moved into the text. -/
def clampLine (t : Text) (n : Nat) : Nat := max 1 (min n t.lineCount)

/-- The line with a number, which is moved into the text first. -/
def line (t : Text) (n : Nat) : Line := t.lines.getD (t.clampLine n - 1) ⟨0, []⟩

/-- The characters of the line with a number, if the text has it. -/
def line? (t : Text) (n : Nat) : Option Text :=
  if n = 0 then none else (t.lines[n - 1]?).map Line.content

/-- The lines as a reader counts them: without the empty one after a final line feed. -/
def readingLines (t : Text) : List Text :=
  let contents := t.lines.map Line.content
  if contents.getLast? = some [] then contents.dropLast else contents

/-- The line terminator a text uses: carriage return and line feed as soon as it has one such
pair, else a line feed. -/
def newline (t : Text) : Text :=
  if t.includes ['\r', '\n'] then ['\r', '\n'] else ['\n']

end Text

end DiagramLint
