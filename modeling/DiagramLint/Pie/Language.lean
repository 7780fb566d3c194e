import DiagramLint.Grammar
import DiagramLint.Pie.Lexer
import DiagramLint.Pie.Parser

/-!
The grammar of pie charts: its checks, the wording of its parse errors, and its stages put
together.
-/

namespace DiagramLint.Pie

/-! ## Checks -/

/-- Where a backslash stands before a quotation mark. -/
def escapedQuoteAt? : Text → Option Nat
  | [] => none
  | '\\' :: '"' :: _ => some 0
  | _ :: rest => (escapedQuoteAt? rest).map (· + 1)

/-- The finding about an escaped quotation mark in a string. -/
def escapeFinding? (t : Tok) : Option Diagnostic :=
  if t.kind = .str then
    (escapedQuoteAt? t.image.toList).map fun i =>
      (((Diagnostic.error ⟨t.line, t.column + i⟩
        "Backslash-escaped quote in label is not supported").withCode
        Code.labelEscapedQuote).withLength 2).withHint "Use &quot; instead of \\\""
  else none

/-- The finding about the value of a slice. -/
def valueFindings (e : Entry) (strict : Bool) : List Diagnostic :=
  let place : Position := ⟨e.place.line, e.valueColumn⟩
  if e.value.isBelowZero then
    [(((Diagnostic.error place ("Slice '" ++ e.label ++ "' has a negative value")).withCode
      Code.pieValueNegative).withLength e.valueLength).withHint "Pie values must be positive"]
  else if e.value.isZero then
    [((Diagnostic.make (.forMode strict) place
      ("Slice '" ++ e.label ++ "' has a zero value and will not be drawn")).withCode
      Code.pieValueZero).withLength e.valueLength]
  else []

/-- The findings about slices; `seen` has the first line of each label met before. -/
def entryFindings (strict : Bool) (seen : List (String × Nat)) : List Entry → List Diagnostic
  | [] => []
  | e :: rest =>
    valueFindings e strict ++
    match seen.lookup e.label with
    | some line =>
      ((Diagnostic.make (.forMode strict) e.place
        ("Label '" ++ e.label ++ "' already used on line " ++ toString line)).withCode
        Code.pieDuplicateLabel).withLength (e.label.length + 2) :: entryFindings strict seen rest
    | none => entryFindings strict ((e.label, e.place.line) :: seen) rest

/-! ## Errors -/

/-- The diagnostic for a parse error. -/
def explain : ParseError → Diagnostic
  | .missingColon place =>
    ((Diagnostic.error place "Missing ':' between label and value").withCode
      Code.pieMissingColon).withHint "Write entries as \"label\" : value"
  | .unquotedLabel place length label =>
    (((Diagnostic.error place ("Label '" ++ label ++ "' must be quoted")).withCode
      Code.pieLabelUnquoted).withLength length).withHint ("Write \"" ++ label ++ "\"")
  | .misspelledKeyword place word suggestion =>
    (((Diagnostic.error place
      ("Unknown keyword '" ++ word ++ "', did you mean '" ++ suggestion ++ "'?")).withCode
      Code.keywordMisspelled).withLength word.length).withHint (keywordHint suggestion)
  | .unexpected place length found expected =>
    ((Diagnostic.error place ("Unexpected " ++ found ++ ", expected " ++ expected)).withCode
      Code.unexpectedToken).withLength length

/-- The grammar of pie charts. -/
def grammar : Grammar Kind Chart ParseError where
  tokenize := tokenize
  postLex := fun _ tokens => .ok (tokens.filterMap escapeFinding?)
  parse := parse
  explain := fun e _ => explain e
  analyze := fun chart _ options => .ok (entryFindings options.strict [] chart.entries)

end DiagramLint.Pie
