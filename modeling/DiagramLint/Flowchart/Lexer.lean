import DiagramLint.Flowchart.Link
import DiagramLint.Flowchart.Token
import DiagramLint.Lexing.Quoted
import DiagramLint.Lexing.Scan

/-!
The flowchart lexer. Blanks and comments belong to no token; a node shape yields its opening
bracket and its label together; some keywords take the rest of their line as text.
-/

namespace DiagramLint.Flowchart

/-! ## Words -/

/-- The word at the start of a text: identifier characters, and dashes before a letter or number. -/
def wordAt : Text → Text
  | [] => []
  | c :: rest =>
    if isIdentChar c || (c == '-' && (rest.head?.any isAlphanumeric)) then c :: wordAt rest else []

/-- What stands before a word decides what it is. -/
structure WordContext where
  statementStart : Bool
  directionSlot : Bool
  headerSeen : Bool

/-- The surroundings of the word a reader has reached. -/
def WordContext.of (s : Reader Kind) : WordContext where
  statementStart := s.follows true Kind.isSeparator
  directionSlot := s.previous.any fun t =>
    t.kind == .header || (t.kind == .keyword && t.image == "direction")
  headerSeen := s.headerSeen

/-- The kind of a word: a header once and only at the start of a statement, a direction only where
one can stand, `end` anywhere, the other keywords at the start of a statement. -/
def wordKind (ctx : WordContext) (word : String) : Kind :=
  if !ctx.headerSeen && ctx.statementStart && headers.contains word then .header
  else if ctx.directionSlot && directions.contains word then .direction
  else if word == "end" || (ctx.statementStart && statementKeywords.contains word) then .keyword
  else .ident

/-- The rest of the line as one text token, if it is not blank, without the white space at its
end. -/
def trailingText (s : Cursor) : List Tok × Cursor :=
  let s := s.skipBlanks
  if s.atLineEnd then ([], s)
  else
    let (text, after) := s.takeLine
    ([Token.ofText .text text.trimEnd s.place], after)

/-- A word and what it takes along. -/
def word (s : Reader Kind) : Yield Kind :=
  let (image, after) := s.cursor.take (wordAt s.cursor.rest).length
  let token := Token.ofText (wordKind (.of s) (String.ofList image)) image s.cursor.place
  if token.kind == .keyword && textKeywords.contains token.image then
    let (text, after) := trailingText after
    { tokens := token :: text, cursor := after }
  else
    { tokens := [token], cursor := after, isHeader := token.kind == .header }

/-! ## Labels -/

/-- The characters of an unquoted label: up to a closing bracket, the end of the line, or white
space before a link. Parentheses nest unless one of them closes the shape. -/
def labelText (parenCloses : Bool) : (depth : Nat) → Text → Text
  | _, [] => []
  | depth, c :: rest =>
    if c = '\n' ∨ c = '\r' then []
    else if isWhiteSpace c && startsLink (Text.trimStart (Cursor.lineRest (c :: rest))) then []
    else if c = '(' ∧ !parenCloses then c :: labelText parenCloses (depth + 1) rest
    else if c = ')' ∧ !parenCloses ∧ 0 < depth then c :: labelText parenCloses (depth - 1) rest
    else if c = ')' ∨ c = ']' ∨ c = '}' then []
    else c :: labelText parenCloses depth rest

/-- The unquoted label text at a cursor, in a shape opened by `opener`. -/
def takeLabelText (opener : String) (s : Cursor) : Text × Cursor :=
  s.take (labelText ((closerFor opener).toList.head? == some ')') 0 s.rest).length

/-- The label after an opening bracket. What stands between a closing quotation mark and the
closing bracket stays in the label. -/
def label (opener : String) (s : Cursor) : Yield Kind :=
  match s.rest with
  | '"' :: rest =>
    match Quoted.read rest with
    | .unterminated image =>
      .error (.at s.place (image.length + 1) "Unterminated string in node label")
        (s.skip (image.length + 1))
    | .closed image =>
      let (spill, after) := takeLabelText opener (s.skip (image.length + 1))
      .token (Token.ofText .quotedLabel ('"' :: (image ++ spill)) s.place) after
  | _ =>
    let (text, after) := takeLabelText opener s
    if text.isEmpty then .nothing after else .token (Token.ofText .label text s.place) after

/-! ## The step -/

/-- A token of a known length. -/
def lexeme (kind : Kind) (length : Nat) (s : Cursor) : Yield Kind :=
  let (image, after) := s.take length
  .token (Token.ofText kind image s.place) after

/-- A character no token starts with. -/
def unexpectedChar (c : Char) (s : Cursor) : Yield Kind :=
  let message :=
    if c = '"' then "Quoted text is only allowed inside a node shape"
    else "Unexpected character '" ++ String.singleton c ++ "'"
  .error (.at s.place 1 message) s.next

/-- The label of an edge, between two bars on one line. -/
def edgeLabel (s : Cursor) : Yield Kind :=
  let line := s.restOfLine
  let inner := (line.drop 1).takeWhile (· != '|')
  if inner.length + 1 < line.length then lexeme .edgeLabel (inner.length + 2) s
  else .error (.at s.place 1 "Unterminated edge label") s.takeLine.2

/-- Whether an identifier ends right at the cursor. -/
def followsIdent (s : Reader Kind) : Bool :=
  s.previous.any fun t =>
    t.kind == .ident && t.line == s.cursor.line && t.endColumn == s.cursor.column

/-- The bracket of a list that a text starts with. -/
def bracketAt? (brackets : List String) (t : Text) : Option String :=
  brackets.find? fun b => t.startsWith b.toList

/-- The link a text starts with: its kind and its length. -/
def linkAt? (t : Text) : Option (Kind × Nat) :=
  ((textLink? t).map (Kind.link, ·)).or <|
    ((plainLink? t).map (Kind.link, ·)).or <|
      (invalidLink? t).map (Kind.invalidLink, ·)

/-- A token that starts with a character of no use on its own: a class reference, a link, a
bracket with its label, or a word. A `>` opens a shape only right behind an identifier. -/
def wideToken (s : Reader Kind) (c : Char) : Yield Kind :=
  let line := s.cursor.restOfLine
  if line.startsWith [':', ':', ':'] then
    let name := (s.cursor.rest.drop 3).takeWhile fun c => isIdentChar c || c == '-'
    lexeme .classRef (3 + name.length) s.cursor
  else
    match linkAt? line with
    | some (kind, length) => lexeme kind length s.cursor
    | none =>
      if c = '>' ∧ !followsIdent s then unexpectedChar c s.cursor
      else
        match bracketAt? shapeOpeners line with
        | some opener =>
          let (image, after) := s.cursor.take opener.length
          let inner := label opener after
          { inner with tokens := Token.ofText .shapeOpen image s.cursor.place :: inner.tokens }
        | none =>
          match bracketAt? shapeClosers line with
          | some closer => lexeme .shapeClose closer.length s.cursor
          | none => if isIdentChar c then word s else unexpectedChar c s.cursor

/-- One step of the lexer. -/
def lexStep : LexStep Kind := fun s =>
  match s.cursor.rest with
  | [] => .nothing s.cursor
  | c :: rest =>
    if Cursor.isBlankChar c then .nothing s.cursor.next
    else if c = '\n' then lexeme .newline 1 s.cursor
    else if c = '%' ∧ rest.head? = some '%' then .nothing s.cursor.takeLine.2
    else if c = ';' then lexeme .semi 1 s.cursor
    else if c = '&' then lexeme .amp 1 s.cursor
    else if c = '|' then edgeLabel s.cursor
    else wideToken s c

/-- The scan of a flowchart. -/
def scan (t : Text) : Scan Kind := Scan.run lexStep .eof (Reader.ofText t)

/-- The tokens of a flowchart and the lexical errors. -/
def tokenize (t : Text) : Lexed Kind := (scan t).lexed

end DiagramLint.Flowchart
