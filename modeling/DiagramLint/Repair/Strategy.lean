import DiagramLint.Repair.BlockEnd
import DiagramLint.Repair.Bracket
import DiagramLint.Repair.Entity
import DiagramLint.Repair.Span
import DiagramLint.Spelling

/-!
Repair strategies. A strategy looks at one diagnostic and the text it was reported for, and either
proposes edits or declines; some can fail to give an answer.
-/

namespace DiagramLint

/-- Where a text is inserted. -/
inductive Anchor where
  /-- Where the diagnostic points. -/
  | caret
  /-- Behind the last character of the line that is not white space. -/
  | lineEnd
  deriving DecidableEq, Repr

/-- A way to repair a diagnostic. -/
inductive Strategy where
  /-- Replace the characters spanned. -/
  | replaceToken (replacement : Text)
  /-- Replace the word by the keyword it misspells. -/
  | replaceKeyword (keywords : List String)
  /-- Encode the label around. -/
  | encodeLabel (rules : List EncodeRule) (delimiters : List Delimiter)
  /-- Replace a wrong closing bracket, or insert a missing one. -/
  | repairBracket (shapes : List Shape)
  /-- Insert the missing end of a block. -/
  | closeBlock (opener : BlockOpener) (closer : Text)
  /-- Move what follows to a line of its own. -/
  | splitStatement
  /-- Insert a text. -/
  | insertText (text : Text) (anchor : Anchor) (level : Level)
  deriving DecidableEq, Repr

/-! ## One strategy each -/

/-- Replace the characters a diagnostic spans, unless they are right already. -/
def replaceToken (replacement : Text) (t : Text) (d : Diagnostic) :
    Except Fault (Option Proposal) :=
  match Caret.of? t d with
  | none => .ok none
  | some c =>
    (c.span d).map fun span =>
      if span.isEmpty || span == replacement then none
      else some (.safe (.replaceSpan d.line (c.index + 1) span.length replacement))

/-- Replace the word around a place: by the keyword that the hint names, else by the nearest one. -/
def replaceKeyword (keywords : List String) (t : Text) (d : Diagnostic) : Option Proposal := do
  let c ← Caret.of? t d
  let start := c.index - c.countBefore isWordChar
  let stop := c.index + c.countAhead isWordChar
  let word := String.ofList ((c.line.drop start).take (stop - start))
  let keyword ←
    if start = stop then none
    else
      match d.hint.bind hintedKeyword? with
      | some keyword => if keyword = word then none else some keyword
      | none => nearestKeyword word keywords
  return .safe (.replaceSpan d.line (start + 1) (stop - start) keyword.toList)

/-- The inside of a span; a quoted label between brackets keeps its quotation marks. -/
def DelimitedSpan.inside (line : Text) (s : DelimitedSpan) : Nat × Text :=
  let inner := (line.drop (s.opening + 1)).take (s.closing - (s.opening + 1))
  if 2 ≤ inner.length && inner.head? == some '"' && inner.getLast? == some '"' then
    (s.opening + 2, (inner.drop 1).dropLast)
  else (s.opening + 1, inner)

/-- Encode the label around a place; without a label, the raw form right there. -/
def encodeLabel (rules : List EncodeRule) (delimiters : List Delimiter) (t : Text)
    (d : Diagnostic) : Except Fault (Option Proposal) :=
  match Caret.of? t d with
  | none => .ok none
  | some c =>
    match enclosingSpan? c.line c.index delimiters with
    | some span =>
      let (start, inner) := span.inside c.line
      (encodeEntities rules inner).map fun encoded =>
        if encoded = inner then none
        else
          some
            { level := .safe
              edits := [.replaceSpan d.line (start + 1) inner.length encoded]
              wholeLine := true }
    | none =>
      let rule? := rules.find? fun r =>
        r.raw.isPrefixOf c.ahead && !r.encoded.isPrefixOf c.ahead
      .ok (rule?.map fun rule =>
        .safe (.replaceSpan d.line (c.index + 1) rule.raw.length rule.encoded))

/-- Break the line before the next character that is not white space. -/
def splitStatement (t : Text) (d : Diagnostic) : Option Proposal := do
  let c ← Caret.of? t d
  let index := c.index + c.countAhead isWhiteSpace
  let cut := index - ((c.line.take index).reverse.takeWhile isWhiteSpace).length
  if c.line.length ≤ index || cut == 0 then none
  else some (.safe (.replace ⟨d.line, cut + 1⟩ ⟨d.line, index + 1⟩ (t.newline ++ c.line.indent)))

/-- Insert a text at an anchor, unless it is there already. A white-space character in its place
is replaced. -/
def insertText (text : Text) (anchor : Anchor) (level : Level) (t : Text) (d : Diagnostic) :
    Option Proposal := do
  let c ← Caret.of? t d
  let point := match anchor with
    | .caret => c.index
    | .lineEnd => c.line.trimEnd.length
  let ahead : Text := c.line.drop point
  let wanted := text.trim
  if !wanted.isEmpty && ahead.trimStart.startsWith wanted then none
  else if ahead.head?.any isWhiteSpace then
    some (.atLevel level (.replaceSpan d.line (point + 1) 1 text))
  else some (.atLevel level (.insert ⟨d.line, point + 1⟩ text))

namespace Strategy

/-- The edits a strategy proposes for a diagnostic; none when it declines. -/
def propose (s : Strategy) (t : Text) (d : Diagnostic) : Except Fault (Option Proposal) :=
  match s with
  | .replaceToken replacement => DiagramLint.replaceToken replacement t d
  | .replaceKeyword keywords => .ok (DiagramLint.replaceKeyword keywords t d)
  | .encodeLabel rules delimiters => DiagramLint.encodeLabel rules delimiters t d
  | .repairBracket shapes => DiagramLint.repairBracket shapes t d
  | .closeBlock opener closer => .ok (DiagramLint.closeBlock opener closer t d)
  | .splitStatement => .ok (DiagramLint.splitStatement t d)
  | .insertText text anchor level => .ok (DiagramLint.insertText text anchor level t d)

/-- What a strategy does, in short. -/
def describe : Strategy → String
  | .replaceToken _ => "replace token"
  | .replaceKeyword _ => "replace misspelled keyword"
  | .encodeLabel _ _ => "encode label entities"
  | .repairBracket _ => "repair bracket"
  | .closeBlock _ _ => "close block"
  | .splitStatement => "split statement"
  | .insertText _ _ _ => "insert separator"

/-- The level from which on a strategy acts at all. -/
def minLevel : Strategy → Level
  | .closeBlock _ _ => .all
  | .insertText _ _ level => level
  | _ => .safe

end Strategy

end DiagramLint
