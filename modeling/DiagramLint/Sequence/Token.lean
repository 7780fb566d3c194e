import DiagramLint.Lexing.Token

/-!
The tokens of a sequence diagram, its reserved words and its arrows.
-/

namespace DiagramLint.Sequence

/-- The kinds of sequence diagram tokens. -/
inductive Kind where
  | header
  | keyword
  | ident
  | arrow
  | invalidArrow
  /-- A plus or minus sign right after an arrow. -/
  | activation
  | colon
  | text
  | newline
  | eof
  deriving DecidableEq, Repr

/-- The written name of a kind. -/
def Kind.name : Kind → String
  | header => "Header"
  | keyword => "Keyword"
  | ident => "Identifier"
  | arrow => "Arrow"
  | invalidArrow => "InvalidArrow"
  | activation => "Activation"
  | colon => "Colon"
  | text => "Text"
  | newline => "Newline"
  | eof => "EOF"

/-- Whether a kind is an arrow, allowed or not. -/
def Kind.isArrow : Kind → Bool
  | arrow | invalidArrow => true
  | _ => false

/-- A token of a sequence diagram. -/
abbrev Tok := Token Kind

/-- The words that start a sequence diagram. -/
def headers : List String := ["sequenceDiagram"]

/-- The words with a meaning at the start of a line. -/
def keywords : List String :=
  ["participant", "actor", "activate", "deactivate", "autonumber", "note", "title", "loop", "alt",
    "else", "opt", "par", "and", "critical", "option", "break", "rect", "box", "end"]

/-- The keywords that no free text follows. -/
def bareKeywords : List String := ["end", "activate", "deactivate"]

/-- The keywords that open a block. -/
def blockKeywords : List String :=
  ["loop", "alt", "opt", "par", "critical", "break", "rect", "box"]

/-- The block that a branch keyword belongs to. -/
def branchParent? : String → Option String
  | "else" => some "alt"
  | "and" => some "par"
  | "option" => some "critical"
  | _ => none

/-- The arrows of a message, each before those that it starts with. -/
def arrows : List String :=
  ["<<-->>", "<<->>", "-->>", "->>", "-->", "->", "--x", "-x", "--)", "-)"]

/-- The arrows that a message cannot have, each before those that it starts with. -/
def invalidArrows : List String := ["==>", "=>>", "=>"]

end DiagramLint.Sequence
