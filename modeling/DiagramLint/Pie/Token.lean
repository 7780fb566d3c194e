import DiagramLint.Lexing.Token

/-!
The tokens of a pie chart.
-/

namespace DiagramLint.Pie

/-- The kinds of pie chart tokens. -/
inductive Kind where
  | header
  | showData
  | title
  | text
  | str
  | colon
  | number
  | word
  | newline
  | eof
  deriving DecidableEq, Repr

/-- The written name of a kind. -/
def Kind.name : Kind → String
  | header => "Header"
  | showData => "ShowData"
  | title => "Title"
  | text => "Text"
  | str => "String"
  | colon => "Colon"
  | number => "Number"
  | word => "Word"
  | newline => "Newline"
  | eof => "EOF"

/-- A token of a pie chart. -/
abbrev Tok := Token Kind

/-- The words that start a pie chart. -/
def headers : List String := ["pie"]

end DiagramLint.Pie
