import DiagramLint.Grammar
import DiagramLint.Sequence.Lexer
import DiagramLint.Sequence.Parser

/-!
The grammar of sequence diagrams: its check of arrows, the wording of its parse errors, and its
stages put together. All that can be wrong with a parsed diagram is found by the parser.
-/

namespace DiagramLint.Sequence

/-- The finding about an arrow that messages do not have. -/
def arrowFinding? (t : Tok) : Option Diagnostic :=
  if t.kind = .invalidArrow then
    some <| (((Diagnostic.error t.place ("Invalid message arrow '" ++ t.image ++ "'")).withCode
      Code.seqArrowInvalid).withLength t.width).withHint
      "Use '->>' for a solid arrow or '-->>' for a dotted one"
  else none

/-- The diagnostic for a parse error. -/
def explain : ParseError → Diagnostic
  | .missingColon place =>
    ((Diagnostic.error place "Message text must follow a ':'").withCode
      Code.seqMessageMissingColon).withHint "Write messages as A->>B: text"
  | .misspelledKeyword place word suggestion =>
    (((Diagnostic.error place
      ("Unknown keyword '" ++ word ++ "', did you mean '" ++ suggestion ++ "'?")).withCode
      Code.keywordMisspelled).withLength word.length).withHint (keywordHint suggestion)
  | .blockMissingEnd place keyword openedAt =>
    ((Diagnostic.error place
      ("'" ++ keyword ++ "' block opened on line " ++ toString openedAt
        ++ " is missing 'end'")).withCode
      Code.blockMissingEnd).withHint ("Close the '" ++ keyword ++ "' block with 'end'")
  | .endWithoutBlock place =>
    ((Diagnostic.error place "'end' without an open block").withCode
      Code.endWithoutBlock).withLength 3
  | .branchOutsideBlock place keyword parent =>
    ((Diagnostic.error place
      ("'" ++ keyword ++ "' is only allowed inside an '" ++ parent ++ "' block")).withCode
      Code.seqElseOutsideBlock).withLength keyword.length
  | .unexpected place length found expected =>
    ((Diagnostic.error place ("Unexpected " ++ found ++ ", expected " ++ expected)).withCode
      Code.unexpectedToken).withLength length

/-- The grammar of sequence diagrams. -/
def grammar : Grammar Kind Diagram ParseError where
  tokenize t := (scan t).result
  postLex := fun _ tokens => .ok (tokens.filterMap arrowFinding?)
  parse := parse
  explain := fun e _ => explain e
  analyze := fun _ _ _ => .ok []

end DiagramLint.Sequence
