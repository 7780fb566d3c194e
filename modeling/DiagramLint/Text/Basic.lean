import DiagramLint.Text.WhiteSpace
import DiagramLint.Text.Alphanumeric

/-!
Texts as lists of characters: their size in bytes, trimming, and their first word.

Everything the linter measures is either a count of characters (columns, lengths) or a count of
bytes of their UTF-8 form (offsets), so a text is kept as the list of its characters and the byte
counts are functions on it.
-/

namespace DiagramLint

/-- A text is the list of its characters. -/
abbrev Text := List Char

namespace Text

/-! ## Bytes -/

/-- The size of a text in bytes of UTF-8. -/
def byteSize : Text → Nat
  | [] => 0
  | c :: rest => c.utf8Size + byteSize rest

@[simp] theorem byteSize_nil : byteSize [] = 0 := rfl

@[simp] theorem byteSize_cons (c : Char) (rest : Text) :
    byteSize (c :: rest) = c.utf8Size + byteSize rest := rfl

@[simp] theorem byteSize_append (a b : Text) : byteSize (a ++ b) = byteSize a + byteSize b := by
  induction a with
  | nil => simp
  | cons c rest ih => simp [ih, Nat.add_assoc]

/-- The two parts of a text around a byte offset; none when the offset lies outside the text or
inside a character. -/
def splitAtByte : Nat → Text → Option (Text × Text)
  | 0, t => some ([], t)
  | _ + 1, [] => none
  | n + 1, c :: rest =>
    if c.utf8Size ≤ n + 1 then
      (splitAtByte (n + 1 - c.utf8Size) rest).map fun parts => (c :: parts.1, parts.2)
    else none

/-- How many characters of a text start before a byte offset. -/
def charsBefore : Nat → Text → Nat
  | 0, _ => 0
  | _ + 1, [] => 0
  | n + 1, c :: rest => charsBefore (n + 1 - c.utf8Size) rest + 1

/-! ## Trimming -/

/-- A text without the characters at its end that satisfy `p`. -/
def dropEndWhile (p : Char → Bool) (t : Text) : Text := (t.reverse.dropWhile p).reverse

/-- A text without the white space at its start. -/
def trimStart (t : Text) : Text := t.dropWhile isWhiteSpace

/-- A text without the white space at its end. -/
def trimEnd (t : Text) : Text := dropEndWhile isWhiteSpace t

/-- A text without the white space around it. -/
def trim (t : Text) : Text := trimEnd (trimStart t)

/-- Whether a text is empty or white space only. -/
def isBlank (t : Text) : Bool := t.all isWhiteSpace

/-! ## Parts -/

/-- Whether `t` starts with `s`. -/
def startsWith (t s : Text) : Bool := s.isPrefixOf t

/-- Whether `t` ends with `s`. -/
def endsWith (t s : Text) : Bool := s.reverse.isPrefixOf t.reverse

/-- What follows `s` at the start of `t`, if `t` starts with it. -/
def after? (t s : Text) : Option Text :=
  if s.isPrefixOf t then some (t.drop s.length) else none

/-- The part before the first white space or semicolon; empty when the text starts with one. -/
def firstWord (t : Text) : Text := t.takeWhile fun c => !(isWhiteSpace c || c == ';')

/-- The characters of indentation at the start of a line. -/
def indent (line : Text) : Text := line.takeWhile fun c => c == ' ' || c == '\t'

/-- Whether `s` stands somewhere in a text. -/
def includes (t s : Text) : Bool :=
  match t with
  | [] => s.isEmpty
  | c :: rest => s.isPrefixOf (c :: rest) || includes rest s

/-- The pieces of a text between the characters that satisfy `p`. -/
def splitWhere (p : Char → Bool) : Text → List Text
  | [] => [[]]
  | c :: rest =>
    if p c then [] :: splitWhere p rest
    else
      match splitWhere p rest with
      | [] => [[c]]
      | piece :: pieces => (c :: piece) :: pieces

/-! ## Digits -/

/-- The number that decimal digits spell. -/
def digitsValue (digits : Text) : Nat := digits.foldl (fun n c => n * 10 + (c.toNat - '0'.toNat)) 0

end Text

end DiagramLint
