import DiagramLint.Lexing.Cursor
import DiagramLint.Lexing.Token
import DiagramLint.Machine

/-!
The loop shared by the lexers. A lexer is a step that, given what was read before and a text with
characters left, yields tokens and errors and moves the cursor. The loop repeats the step until
the text is used up and adds the token for the end of the text. A step that leaves the cursor
where it is would be repeated for ever: the scan then stalls, and has no result.
-/

namespace DiagramLint

/-- What a step may consult: the cursor, the token before it and whether the header was seen. -/
structure Reader (κ : Type) where
  cursor : Cursor
  previous : Option (Token κ) := none
  headerSeen : Bool := false

/-- What a step yields. -/
structure Yield (κ : Type) where
  tokens : List (Token κ) := []
  errors : List LexError := []
  cursor : Cursor
  isHeader : Bool := false

/-- The step of a lexer, called only when characters are left. -/
abbrev LexStep (κ : Type) := Reader κ → Yield κ

namespace Yield

variable {κ : Type}

/-- The step moves over text that belongs to no token. -/
def nothing (cursor : Cursor) : Yield κ := { cursor }

/-- The step yields one token. -/
def token (t : Token κ) (cursor : Cursor) : Yield κ := { tokens := [t], cursor }

/-- The step reports an error. -/
def error (e : LexError) (cursor : Cursor) : Yield κ := { errors := [e], cursor }

/-- What the loop collects of a step. -/
def lexed (y : Yield κ) : Lexed κ := ⟨y.tokens, y.errors⟩

end Yield

namespace Reader

variable {κ : Type}

/-- The reader at the start of a text. -/
def ofText (t : Text) : Reader κ := { cursor := Cursor.ofText t }

/-- The reader after a step. -/
def after (s : Reader κ) (y : Yield κ) : Reader κ where
  cursor := y.cursor
  previous := y.tokens.getLast?.or s.previous
  headerSeen := s.headerSeen || y.isHeader

/-- Whether the token before is of a kind that satisfies `p`; `atStart` when there is none. -/
def follows (s : Reader κ) (atStart : Bool) (p : κ → Bool) : Bool :=
  match s.previous with
  | none => atStart
  | some t => p t.kind

end Reader

/-- How a scan ends. -/
inductive Scan (κ : Type) where
  /-- The text is used up. -/
  | finished (lexed : Lexed κ)
  /-- No step leads on from a position; `lexed` is what came before it. -/
  | stalled (lexed : Lexed κ) (place : Position)

namespace Scan

variable {κ : Type}

/-- The scan with earlier tokens and errors put before it. -/
def after (first : Lexed κ) : Scan κ → Scan κ
  | .finished l => .finished (first ++ l)
  | .stalled l place => .stalled (first ++ l) place

/-- Repeat a step from a reader on. -/
def run (step : LexStep κ) (eof : κ) (s : Reader κ) : Scan κ :=
  match s.cursor.rest with
  | [] => .finished ⟨[Token.ofText eof [] s.cursor.place], []⟩
  | _ :: _ =>
    let y := step s
    if y.cursor.rest.length < s.cursor.rest.length then
      (run step eof (s.after y)).after y.lexed
    else .stalled ⟨[], []⟩ s.cursor.place
termination_by s.cursor.rest.length
decreasing_by simpa [Reader.after]

/-- The tokens and errors up to the end of a scan, or up to where it stalled. -/
def lexed : Scan κ → Lexed κ
  | .finished l | .stalled l _ => l

/-- The tokens and errors that a scan comes to. -/
def result : Scan κ → Except Fault (Lexed κ)
  | .finished l => .ok l
  | .stalled _ _ => .error .endless

end Scan

end DiagramLint
