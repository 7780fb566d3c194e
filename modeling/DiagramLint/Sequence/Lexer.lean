import DiagramLint.Lexing.Scan
import DiagramLint.Sequence.Token

/-!
The sequence diagram lexer. Most keywords, and the colon, take the rest of their line as text.
-/

namespace DiagramLint.Sequence

/-- A token of a known length. -/
def lexeme (kind : Kind) (length : Nat) (s : Cursor) : Yield Kind :=
  let (image, after) := s.take length
  .token (Token.ofText kind image s.place) after

/-- The rest of the line as one text token, if it is not blank, without the white space at its
end. -/
def trailingText (s : Cursor) : List Tok × Cursor :=
  let s := s.skipBlanks
  if s.atLineEnd then ([], s)
  else
    let (text, after) := s.takeLine
    ([Token.ofText .text text.trimEnd s.place], after)

/-- The token with the rest of its line. -/
def withTrailingText (token : Tok) (s : Cursor) : Yield Kind :=
  let (text, after) := trailingText s
  { tokens := token :: text, cursor := after }

/-- The kind of a word: the header once, and the keywords, at the start of a line. -/
def wordKind (s : Reader Kind) (word : String) : Kind :=
  let lineStart := s.follows true (· == .newline)
  if !s.headerSeen && lineStart && headers.contains word then .header
  else if lineStart && keywords.contains word then .keyword
  else .ident

/-- A word and what it takes along. -/
def word (s : Reader Kind) : Yield Kind :=
  let (image, after) := s.cursor.takeWhile isIdentChar
  let token := Token.ofText (wordKind s (String.ofList image)) image s.cursor.place
  if token.kind == .keyword && !bareKeywords.contains token.image then withTrailingText token after
  else { tokens := [token], cursor := after, isHeader := token.kind == .header }

/-- The arrow a text starts with: its kind and its length. -/
def arrowAt? (t : Text) : Option (Kind × Nat) :=
  ((arrows.find? fun a => t.startsWith a.toList).map fun a => (Kind.arrow, a.length)).or <|
    (invalidArrows.find? fun a => t.startsWith a.toList).map fun a => (Kind.invalidArrow, a.length)

/-- One step of the lexer. -/
def lexStep : LexStep Kind := fun s =>
  match s.cursor.rest with
  | [] => .nothing s.cursor
  | c :: rest =>
    if Cursor.isBlankChar c then .nothing s.cursor.next
    else if c = '\n' then lexeme .newline 1 s.cursor
    else if c = '%' ∧ rest.head? = some '%' then .nothing s.cursor.takeLine.2
    else if c = ':' then withTrailingText (Token.ofText .colon [c] s.cursor.place) s.cursor.next
    else if (c = '+' ∨ c = '-') ∧ s.follows false Kind.isArrow then lexeme .activation 1 s.cursor
    else if isIdentChar c then word s
    else
      match arrowAt? s.cursor.restOfLine with
      | some (kind, length) => lexeme kind length s.cursor
      | none =>
        .error (.at s.cursor.place 1 ("Unexpected character '" ++ String.singleton c ++ "'"))
          s.cursor.next

/-- The scan of a sequence diagram. -/
def scan (t : Text) : Scan Kind := Scan.run lexStep .eof (Reader.ofText t)

/-- The tokens of a sequence diagram and the lexical errors. -/
def tokenize (t : Text) : Lexed Kind := (scan t).lexed

end DiagramLint.Sequence
