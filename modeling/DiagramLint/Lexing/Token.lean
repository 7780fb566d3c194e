import DiagramLint.Position

/-!
Tokens, the errors of a lexer, and what a lexer returns.
-/

namespace DiagramLint

/-- A token of one of the `κ` kinds: its characters and where the first of them stands. -/
structure Token (κ : Type) where
  kind : κ
  image : String
  line : Nat
  column : Nat
  deriving DecidableEq, Repr

namespace Token

variable {κ : Type}

/-- A token made of characters read at a position. -/
def ofText (kind : κ) (image : Text) (place : Position) : Token κ :=
  ⟨kind, String.ofList image, place.line, place.column⟩

/-- Where the token starts. -/
def place (t : Token κ) : Position := ⟨t.line, t.column⟩

/-- The number of characters, one at least so that it can be underlined. -/
def width (t : Token κ) : Nat := max t.image.length 1

/-- The column just past the last character. -/
def endColumn (t : Token κ) : Nat := t.column + t.image.length

/-- The position just past the last character. -/
def endPlace (t : Token κ) : Position := ⟨t.line, t.endColumn⟩

end Token

/-- Text that a lexer cannot make a token of. -/
structure LexError where
  line : Nat
  column : Nat
  length : Nat
  message : String
  deriving DecidableEq, Repr

/-- A lexical error at a position. -/
def LexError.at (place : Position) (length : Nat) (message : String) : LexError :=
  ⟨place.line, place.column, length, message⟩

/-- The tokens of a text and the errors met on the way. -/
structure Lexed (κ : Type) where
  tokens : List (Token κ)
  errors : List LexError
  deriving DecidableEq, Repr

/-- What comes first, then what comes after. -/
def Lexed.append {κ : Type} (a b : Lexed κ) : Lexed κ :=
  ⟨a.tokens ++ b.tokens, a.errors ++ b.errors⟩

instance {κ : Type} : Append (Lexed κ) := ⟨Lexed.append⟩

end DiagramLint
