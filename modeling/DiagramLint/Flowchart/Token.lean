import DiagramLint.Lexing.Token

/-!
The tokens of a flowchart and its reserved words.
-/

namespace DiagramLint.Flowchart

/-- The kinds of flowchart tokens. -/
inductive Kind where
  | header
  | direction
  | keyword
  | ident
  | link
  | invalidLink
  | edgeLabel
  | shapeOpen
  | shapeClose
  | label
  | quotedLabel
  | classRef
  /-- Free text after a statement keyword. -/
  | text
  | amp
  | semi
  | newline
  | eof
  deriving DecidableEq, Repr

/-- The written name of a kind. -/
def Kind.name : Kind → String
  | header => "Header"
  | direction => "Direction"
  | keyword => "Keyword"
  | ident => "Identifier"
  | link => "Link"
  | invalidLink => "InvalidLink"
  | edgeLabel => "EdgeLabel"
  | shapeOpen => "ShapeOpen"
  | shapeClose => "ShapeClose"
  | label => "Label"
  | quotedLabel => "QuotedLabel"
  | classRef => "ClassRef"
  | text => "Text"
  | amp => "Ampersand"
  | semi => "Semicolon"
  | newline => "Newline"
  | eof => "EOF"

/-- Line ends and semicolons separate statements. -/
def Kind.isSeparator : Kind → Bool
  | newline | semi => true
  | _ => false

/-- A token of a flowchart. -/
abbrev Tok := Token Kind

/-- The words that start a flowchart. -/
def headers : List String := ["flowchart", "graph"]

/-- The directions a chart can be drawn in. -/
def directions : List String := ["TB", "TD", "BT", "RL", "LR"]

/-- The words with a meaning at the start of a statement. -/
def statementKeywords : List String :=
  ["subgraph", "end", "direction", "classDef", "class", "style", "linkStyle", "click"]

/-- The keywords that take the rest of their line as one text. -/
def textKeywords : List String :=
  ["subgraph", "classDef", "class", "style", "linkStyle", "click"]

/-- What opens a node shape, longer forms first. -/
def shapeOpeners : List String :=
  ["((", "([", "[[", "[(", "\x7b\x7b", "[", "(", "\x7b", ">"]

/-- What closes a node shape, longer forms first. -/
def shapeClosers : List String := ["))", "])", "]]", ")]", "\x7d\x7d", "]", ")", "\x7d"]

/-- What closes the shape that `opener` opens. -/
def closerFor (opener : String) : String :=
  match opener with
  | "((" => "))"
  | "([" => "])"
  | "[[" => "]]"
  | "[(" => ")]"
  | "\x7b\x7b" => "\x7d\x7d"
  | "(" => ")"
  | "\x7b" => "\x7d"
  | _ => "]"

end DiagramLint.Flowchart
