import DiagramLint.Flowchart.Token
import DiagramLint.Flowchart.Tree
import DiagramLint.Grammar

/-!
The checks of a flowchart outside its grammar: links and labels on the tokens, the direction and
the ids of subgraphs on the tree, and the reserved word `end` used as a node.
-/

namespace DiagramLint.Flowchart

/-! ## Tokens -/

/-- A link that flowcharts do not have. -/
def linkFinding (t : Tok) : Diagnostic :=
  (((Diagnostic.error t.place ("Invalid arrow '" ++ t.image ++ "'")).withCode Code.arrowInvalid).withLength
    t.width).withHint "Use '-->' for an arrow"

/-- The quotation marks inside a quoted label: the first escaped one and the first bare one, as
indexes, when `t` is what stands from index `i` on. The last character may be a bare one. -/
def quotesFrom (i : Nat) : Text → Option Nat × Option Nat
  | [] => (none, none)
  | '\\' :: '"' :: rest => (some i, (quotesFrom (i + 2) rest).2)
  | c :: rest =>
    let (escaped, bare) := quotesFrom (i + 1) rest
    if c = '"' ∧ !rest.isEmpty then (escaped, some i) else (escaped, bare)

/-- The finding about quotation marks in a quoted label: an escaped one comes before a bare one. -/
def quotedLabelFindings (t : Tok) : List Diagnostic :=
  match quotesFrom 1 (t.image.toList.drop 1) with
  | (some i, _) =>
    [(((Diagnostic.error ⟨t.line, t.column + i⟩
      "Backslash-escaped quote in label is not supported").withCode Code.labelEscapedQuote).withLength
      2).withHint "Use &quot; instead of \\\""]
  | (none, some i) =>
    [((Diagnostic.error ⟨t.line, t.column + i⟩ "Unescaped quote inside quoted label").withCode
      Code.labelRawQuote).withHint "Use &quot; for quotes inside labels"]
  | (none, none) => []

/-- The finding about a quotation mark in an unquoted label. -/
def bareQuoteFindings (t : Tok) : List Diagnostic :=
  match t.image.toList.findIdx? (· == '"') with
  | some i =>
    [((Diagnostic.error ⟨t.line, t.column + i⟩ "Quote inside unquoted label").withCode
      Code.labelRawQuote).withHint "Use &quot; for quotes inside labels"]
  | none => []

/-- The finding about a parenthesis in an unquoted label between square brackets. -/
def parenFindings (t : Tok) : List Diagnostic :=
  match t.image.toList.findIdx? (fun c => c == '(' || c == ')') with
  | some i =>
    [((Diagnostic.error ⟨t.line, t.column + i⟩
      "Parentheses inside a square label break parsing").withCode Code.labelParenInLabel).withHint
      "Use &#40; and &#41;, or quote the label"]
  | none => []

/-- The findings about a token that follows `previous`. -/
def tokenFindings (previous : Option Tok) (t : Tok) : List Diagnostic :=
  match t.kind with
  | .invalidLink => [linkFinding t]
  | .quotedLabel => quotedLabelFindings t
  | .label =>
    let square := previous.any fun p => p.kind == .shapeOpen && p.image == "["
    bareQuoteFindings t ++ if square then parenFindings t else []
  | _ => []

/-- The findings about tokens, the first of which follows `previous`. -/
def tokenChecks (previous : Option Tok) : List Tok → List Diagnostic
  | [] => []
  | t :: rest => tokenFindings previous t ++ tokenChecks (some t) rest

/-! ## Tree -/

/-- The setting that turns the check of the direction off. -/
def requireDirection : String := "require_direction"

/-- Whether a direction is asked for; the setting must be a boolean. -/
def directionRequired (options : LintOptions) : Except String Bool :=
  match options.settings.lookup requireDirection with
  | none => .ok true
  | some (.bool b) => .ok b
  | some _ => .error ("setting '" ++ requireDirection ++ "' must be a boolean")

/-- The finding about a missing direction. It points at the header. -/
def directionFinding (chart : Chart) (tokens : List Tok) (strict : Bool) : Diagnostic :=
  let width := ((tokens.find? (·.kind == .header)).map Token.width).getD 1
  (((Diagnostic.make (.forMode strict) ⟨chart.headerLine, 1⟩ "Flowchart has no direction").withCode
    Code.directionMissing).withLength width).withHint
    "Add a direction such as TD or LR after the header"

mutual

/-- The subgraphs with an id in a statement, in source order. -/
def Statement.subgraphs : Statement → List (String × Position)
  | .subgraph (some id) place body => (id, place) :: subgraphsIn body
  | .subgraph none _ body => subgraphsIn body
  | _ => []

/-- The subgraphs with an id in a run of statements, in source order. -/
def subgraphsIn : List Statement → List (String × Position)
  | [] => []
  | s :: rest => s.subgraphs ++ subgraphsIn rest

end

/-- The findings about subgraphs whose id stands on an earlier one; `seen` has the first line of
each id met before. -/
def duplicateIds (seen : List (String × Nat)) : List (String × Position) → List Diagnostic
  | [] => []
  | (id, place) :: rest =>
    match seen.lookup id with
    | some line =>
      ((Diagnostic.error place
        ("Subgraph id '" ++ id ++ "' already used on line " ++ toString line)).withCode
        Code.subgraphDuplicateId).withLength "subgraph".length :: duplicateIds seen rest
    | none => duplicateIds ((id, place.line) :: seen) rest

/-- The analysis of a chart. -/
def analyze (chart : Chart) (tokens : List Tok) (options : LintOptions) :
    Except String (List Diagnostic) := do
  let required ← directionRequired options
  let direction :=
    if required && chart.direction.isNone then [directionFinding chart tokens options.strict]
    else []
  return direction ++ duplicateIds [] (subgraphsIn chart.statements)

/-! ## Reserved word -/

/-- The finding about `end` used as a node. -/
def reservedFinding (t : Tok) : Diagnostic :=
  (((Diagnostic.error t.place "'end' is reserved and cannot be a node id").withCode
    Code.nodeIdReserved).withLength 3).withHint "Capitalise it (End) or use another id"

/-- The findings about the word `end` inside statements, at most one a line; `reported` are the
diagnostics so far and `previous` the token before. -/
def reservedIds (reported : List Diagnostic) (previous : Option Tok) :
    List Tok → List Diagnostic
  | [] => []
  | t :: rest =>
    let inside := previous.any fun p => !p.kind.isSeparator
    if t.kind == .keyword && t.image == "end" && inside
        && !alreadyReported reported Code.nodeIdReserved t.line then
      reservedFinding t :: reservedIds (reported ++ [reservedFinding t]) (some t) rest
    else reservedIds reported (some t) rest

end DiagramLint.Flowchart
