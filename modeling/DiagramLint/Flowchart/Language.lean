import DiagramLint.Flowchart.Checks
import DiagramLint.Flowchart.Lexer
import DiagramLint.Flowchart.Parser

/-!
The grammar of flowcharts: the wording of its parse errors, and its stages put together.
-/

namespace DiagramLint.Flowchart

/-- The diagnostic for a parse error. -/
def explain : ParseError → Diagnostic
  | .mismatchedCloser place found expected =>
    (((Diagnostic.error place
      ("Shape closed with '" ++ found ++ "' but expected '" ++ expected ++ "'")).withCode
      Code.shapeMismatchedCloser).withLength found.length).withHint
      ("Close the shape with '" ++ expected ++ "'")
  | .unclosed place expected =>
    ((Diagnostic.error place ("Unclosed node shape, expected '" ++ expected ++ "'")).withCode
      Code.shapeUnclosed).withHint ("Add '" ++ expected ++ "' after the label")
  | .missingArrow place length =>
    (((Diagnostic.error place "Missing arrow between nodes").withCode
      Code.linkMissingArrow).withLength length).withHint "Connect the nodes with '-->'"
  | .trailingStatement place =>
    ((Diagnostic.error place "Unexpected tokens after a complete statement").withCode
      Code.statementTrailingTokens).withHint "Put each statement on its own line"
  | .misspelledKeyword place word suggestion =>
    (((Diagnostic.error place
      ("Unknown keyword '" ++ word ++ "', did you mean '" ++ suggestion ++ "'?")).withCode
      Code.keywordMisspelled).withLength word.length).withHint (keywordHint suggestion)
  | .blockMissingEnd place openedAt =>
    ((Diagnostic.error place
      ("Subgraph opened on line " ++ toString openedAt ++ " is missing 'end'")).withCode
      Code.blockMissingEnd).withHint "Close the subgraph with 'end'"
  | .endWithoutBlock place =>
    ((Diagnostic.error place "'end' without an open subgraph").withCode
      Code.endWithoutBlock).withLength 3
  | .unexpected place length found expected =>
    ((Diagnostic.error place ("Unexpected " ++ found ++ ", expected " ++ expected)).withCode
      Code.unexpectedToken).withLength length

/-- The grammar of flowcharts. -/
def grammar : Grammar Kind Chart ParseError where
  tokenize t := (scan t).result
  postLex := fun _ tokens => .ok (tokenChecks none tokens)
  parse := parse
  explain := fun e _ => explain e
  analyze := analyze
  postParse := fun _ tokens _ prior => .ok (reservedIds prior none tokens)

end DiagramLint.Flowchart
