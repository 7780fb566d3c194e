import DiagramLint.Code
import DiagramLint.Repair.Strategy

/-!
Which strategy repairs which code.
-/

namespace DiagramLint

/-- Strategies by code; a code occurs once. -/
structure Registry where
  entries : List (String × Strategy) := []

namespace Registry

/-- The registry with a strategy for a code, in place of an earlier one. -/
def register (r : Registry) (code : String) (s : Strategy) : Registry :=
  ⟨r.entries.filter (·.1 != code) ++ [(code, s)]⟩

/-- A registry of several strategies; a later one replaces an earlier one of its code. -/
def ofList (entries : List (String × Strategy)) : Registry :=
  entries.foldl (fun r (code, s) => r.register code s) {}

/-- The strategy for a code. -/
def get? (r : Registry) (code : String) : Option Strategy := r.entries.lookup code

/-- Whether a code can be repaired. -/
def isFixable (r : Registry) (code : String) : Bool := (r.get? code).isSome

/-- The number of codes that can be repaired. -/
def size (r : Registry) : Nat := r.entries.length

end Registry

/-! ## The built-in repairs -/

/-- The words a misspelled first word may become. -/
def repairKeywords : List String :=
  ["flowchart", "graph", "subgraph", "direction", "classDef", "class", "click", "style",
    "linkStyle", "sequenceDiagram", "participant", "actor", "activate", "deactivate", "autonumber",
    "loop", "alt", "else", "opt", "par", "and", "critical", "option", "break", "rect", "box",
    "note", "title", "showData"]

/-- The words whose line opens a block that `end` closes. -/
def endBlockOpeners : List String :=
  ["subgraph", "block", "alt", "opt", "loop", "par", "critical", "break", "rect", "box"]

/-- The bracket shapes, double ones first. -/
def bracketShapes : List Shape :=
  [⟨['(', '('], [')', ')']⟩, ⟨['[', '['], [']', ']']⟩, ⟨['(', '['], [']', ')']⟩,
    ⟨['[', '('], [')', ']']⟩, ⟨['{', '{'], ['}', '}']⟩, ⟨['('], [')']⟩, ⟨['['], [']']⟩,
    ⟨['{'], ['}']⟩]

/-- A quotation mark behind a backslash becomes an entity. -/
def escapedQuoteRules : List EncodeRule := [⟨['\\', '"'], "&quot;".toList⟩]

/-- A quotation mark becomes an entity. -/
def rawQuoteRules : List EncodeRule := [⟨['"'], "&quot;".toList⟩]

/-- Parentheses become entities. -/
def parenRules : List EncodeRule := [⟨['('], "&#40;".toList⟩, ⟨[')'], "&#41;".toList⟩]

/-- The built-in repairs. -/
def Registry.builtin : Registry :=
  .ofList
    [(Code.arrowInvalid, .replaceToken "-->".toList),
      (Code.seqArrowInvalid, .replaceToken "->>".toList),
      (Code.keywordMisspelled, .replaceKeyword repairKeywords),
      (Code.labelEscapedQuote, .encodeLabel escapedQuoteRules [.quote]),
      (Code.labelRawQuote,
        .encodeLabel rawQuoteRules [.pair '[' ']', .pair '(' ')', .pair '{' '}']),
      (Code.labelParenInLabel, .encodeLabel parenRules [.pair '[' ']']),
      (Code.shapeMismatchedCloser, .repairBracket bracketShapes),
      (Code.shapeUnclosed, .repairBracket bracketShapes),
      (Code.blockMissingEnd, .closeBlock (.keywords endBlockOpeners) "end".toList),
      (Code.stateBlockMissingBrace, .closeBlock .trailingBrace ['}']),
      (Code.statementTrailingTokens, .splitStatement),
      (Code.pieMissingColon, .insertText ": ".toList .caret .safe),
      (Code.seqMessageMissingColon, .insertText ": ".toList .caret .safe),
      (Code.directionMissing, .insertText " TD".toList .lineEnd .all),
      (Code.linkMissingArrow, .insertText "--> ".toList .caret .all)]

end DiagramLint
