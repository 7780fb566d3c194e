import DiagramLint.Lexing.Quoted
import DiagramLint.Lexing.Scan
import DiagramLint.Pie.Token

/-!
The pie chart lexer. A word goes up to white space, a colon or a quotation mark, so a white-space
character that is neither skipped nor a line feed starts an empty word: there the scan stalls.
-/

namespace DiagramLint.Pie

/-- A token of a known length. -/
def lexeme (kind : Kind) (length : Nat) (s : Cursor) : Yield Kind :=
  let (image, after) := s.take length
  .token (Token.ofText kind image s.place) after

/-- A string in double quotes. -/
def quotedString (rest : Text) (s : Cursor) : Yield Kind :=
  match Quoted.read rest with
  | .closed image => lexeme .str (image.length + 1) s
  | .unterminated image =>
    .error (.at s.place (image.length + 1) "Unterminated string") (s.skip (image.length + 1))

/-- The characters of a number after its first one. -/
def isNumberChar (c : Char) : Bool := c.isDigit || c == '.'

/-- The characters of a word. -/
def isPieWordChar (c : Char) : Bool := !isWhiteSpace c && c != ':' && c != '"'

/-- The kind of a word: the header once and at the start of a line; the words about the chart at
the start of a line, after the header or after each other. -/
def wordKind (s : Reader Kind) (word : String) : Kind :=
  let lineStart := s.follows true (· == .newline)
  let afterHeader := s.follows false fun k => k == .header || k == .showData
  if !s.headerSeen && lineStart && headers.contains word then .header
  else if (lineStart || afterHeader) && word == "showData" then .showData
  else if (lineStart || afterHeader) && word == "title" then .title
  else .word

/-- The rest of the line as one text token, if it is not blank, without the white space at its
end. -/
def trailingText (s : Cursor) : List Tok × Cursor :=
  let s := s.skipBlanks
  if s.atLineEnd then ([], s)
  else
    let (text, after) := s.takeLine
    ([Token.ofText .text text.trimEnd s.place], after)

/-- A word; a title takes the rest of its line along. -/
def word (s : Reader Kind) : Yield Kind :=
  let (image, after) := s.cursor.takeWhile isPieWordChar
  let token := Token.ofText (wordKind s (String.ofList image)) image s.cursor.place
  if token.kind == .title then
    let (text, after) := trailingText after
    { tokens := token :: text, cursor := after }
  else { tokens := [token], cursor := after, isHeader := token.kind == .header }

/-- One step of the lexer. -/
def lexStep : LexStep Kind := fun s =>
  match s.cursor.rest with
  | [] => .nothing s.cursor
  | c :: rest =>
    if Cursor.isBlankChar c then .nothing s.cursor.next
    else if c = '\n' then lexeme .newline 1 s.cursor
    else if c = '%' ∧ rest.head? = some '%' then .nothing s.cursor.takeLine.2
    else if c = ':' then lexeme .colon 1 s.cursor
    else if c = '"' then quotedString rest s.cursor
    else if c.isDigit || (c == '-' && rest.head?.any Char.isDigit) then
      lexeme .number ((rest.takeWhile isNumberChar).length + 1) s.cursor
    else word s

/-- The scan of a pie chart. -/
def scan (t : Text) : Scan Kind := Scan.run lexStep .eof (Reader.ofText t)

/-- The tokens of a pie chart and the lexical errors. -/
def tokenize (t : Text) : Except Fault (Lexed Kind) := (scan t).result

end DiagramLint.Pie
