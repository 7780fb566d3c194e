/-!
The stable codes of diagnostics and the catalogue that describes them.
-/

namespace DiagramLint.Code

/-! ## Names -/

def arrowInvalid : String := "ARROW_INVALID"
def seqArrowInvalid : String := "SEQ_ARROW_INVALID"
def keywordMisspelled : String := "KEYWORD_MISSPELLED"
def labelEscapedQuote : String := "LABEL_ESCAPED_QUOTE"
def labelRawQuote : String := "LABEL_RAW_QUOTE"
def labelParenInLabel : String := "LABEL_PAREN_IN_LABEL"
def shapeMismatchedCloser : String := "SHAPE_MISMATCHED_CLOSER"
def shapeUnclosed : String := "SHAPE_UNCLOSED"
def blockMissingEnd : String := "BLOCK_MISSING_END"
def stateBlockMissingBrace : String := "STATE_BLOCK_MISSING_BRACE"
def endWithoutBlock : String := "END_WITHOUT_BLOCK"
def statementTrailingTokens : String := "STATEMENT_TRAILING_TOKENS"
def linkMissingArrow : String := "LINK_MISSING_ARROW"
def directionMissing : String := "DIRECTION_MISSING"
def unexpectedToken : String := "UNEXPECTED_TOKEN"
def nodeIdReserved : String := "NODE_ID_RESERVED"
def subgraphDuplicateId : String := "SUBGRAPH_DUPLICATE_ID"
def pieMissingColon : String := "PIE_MISSING_COLON"
def pieLabelUnquoted : String := "PIE_LABEL_UNQUOTED"
def pieValueNegative : String := "PIE_VALUE_NEGATIVE"
def pieValueZero : String := "PIE_VALUE_ZERO"
def pieDuplicateLabel : String := "PIE_DUPLICATE_LABEL"
def seqMessageMissingColon : String := "SEQ_MESSAGE_MISSING_COLON"
def seqElseOutsideBlock : String := "SEQ_ELSE_OUTSIDE_BLOCK"
def lexError : String := "LEX_ERROR"
def semanticError : String := "SEMANTIC_ERROR"
def unknownDiagram : String := "UNKNOWN_DIAGRAM"
def fileReadError : String := "FILE_READ_ERROR"

/-! ## Catalogue -/

/-- Every code with a one-line description, in the order in which they are listed. -/
def catalogue : List (String × String) :=
  [(arrowInvalid, "Flowchart link written as '->' or '=>'"),
    (seqArrowInvalid, "Sequence message arrow written as '=>'"),
    (keywordMisspelled, "Statement keyword within two edits of a known one"),
    (labelEscapedQuote, "Backslash-escaped quote inside a label"),
    (labelRawQuote, "Bare quote inside a label"),
    (labelParenInLabel, "Parentheses inside an unquoted square label"),
    (shapeMismatchedCloser, "Node shape closed with the wrong bracket"),
    (shapeUnclosed, "Node shape never closed"),
    (blockMissingEnd, "Block still open at the end of the diagram"),
    (stateBlockMissingBrace, "Composite state missing its closing brace"),
    (endWithoutBlock, "'end' with no open block"),
    (statementTrailingTokens, "Second statement on the same line"),
    (linkMissingArrow, "Two nodes with no link between them"),
    (directionMissing, "Flowchart header without a direction"),
    (unexpectedToken, "Token the grammar does not allow here"),
    (nodeIdReserved, "Lowercase 'end' used as a node id"),
    (subgraphDuplicateId, "Subgraph id declared twice"),
    (pieMissingColon, "Pie entry without ':' between label and value"),
    (pieLabelUnquoted, "Pie label not in double quotes"),
    (pieValueNegative, "Pie slice with a negative value"),
    (pieValueZero, "Pie slice with a zero value"),
    (pieDuplicateLabel, "Pie label used twice"),
    (seqMessageMissingColon, "Sequence message text without ':'"),
    (seqElseOutsideBlock, "'else', 'and' or 'option' outside its block"),
    (lexError, "Text the dialect's lexer cannot tokenize"),
    (semanticError, "Semantic analysis failed"),
    (unknownDiagram, "No dialect recognises the diagram header"),
    (fileReadError, "File could not be read")]

end DiagramLint.Code
