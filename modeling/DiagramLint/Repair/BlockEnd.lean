import DiagramLint.Repair.Proposal

/-!
Repair of blocks: the missing end of the innermost open block is put on a line of its own, before
the first later line that is not indented deeper than the block.
-/

namespace DiagramLint

/-- How a line that opens a block is recognised. -/
inductive BlockOpener where
  /-- Its first word is one of these. -/
  | keywords (words : List String)
  /-- It ends with an opening brace. -/
  | trailingBrace
  deriving DecidableEq, Repr

namespace BlockOpener

/-- Whether a trimmed line opens a block. -/
def opens (opener : BlockOpener) (line : Text) : Bool :=
  match opener with
  | .keywords words => words.contains (String.ofList line.firstWord)
  | .trailingBrace => line.getLast? == some '{'

end BlockOpener

/-- Whether a trimmed line closes a block: by its first word if the closer is one, else by how it
starts. -/
def isBlockCloser (closer line : Text) : Bool :=
  if closer.all isAlphanumeric then line.firstWord == closer else line.startsWith closer

/-- The width of an indentation; a tab counts four. -/
def indentWidth (indent : Text) : Nat := indent.foldl (fun n c => n + if c = '\t' then 4 else 1) 0

/-- The number of the last line that opens a block not closed after it, when `depth` ends are to
be matched first; the trimmed lines are read backwards. -/
def openLine? (opener : BlockOpener) (closer : Text) : (depth : Nat) → List Text → Option Nat
  | _, [] => none
  | depth, line :: above =>
    if isBlockCloser closer line then openLine? opener closer (depth + 1) above
    else if opener.opens line then
      match depth with
      | 0 => some (above.length + 1)
      | depth + 1 => openLine? opener closer depth above
    else openLine? opener closer depth above

/-- How many lines still belong to a block whose indentation has a width. -/
def blockBody? (width : Nat) (below : List Text) : Option Nat :=
  below.findIdx? fun line => !line.isBlank && indentWidth line.indent ≤ width

/-- Close the innermost block that is open where a diagnostic points. -/
def closeBlock (opener : BlockOpener) (closer : Text) (t : Text) (d : Diagnostic) :
    Option Proposal := do
  let contents := t.lines.map Line.content
  let upTo := contents.take (t.clampLine d.line)
  let number ← openLine? opener closer 0 (upTo.map Text.trim).reverse
  let indent := Text.indent (t.line number).content
  let last := t.line t.lineCount
  let edit :=
    match blockBody? (indentWidth indent) (contents.drop number) with
    | some body => Edit.insert ⟨number + body + 1, 1⟩ (indent ++ closer ++ t.newline)
    | none =>
      if last.content.isEmpty then
        Edit.insert ⟨t.lineCount, 1⟩ (indent ++ closer ++ t.newline)
      else Edit.insert ⟨t.lineCount, last.width + 1⟩ (t.newline ++ indent ++ closer)
  return .atLevel .all edit

end DiagramLint
