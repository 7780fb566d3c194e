import DiagramLint.Parsing.Nesting
import DiagramLint.Parsing.Reading
import DiagramLint.Sequence.Token
import DiagramLint.Sequence.Tree
import DiagramLint.Spelling
import DiagramLint.Text.WhiteSpace

/-!
The sequence diagram parser. Every statement fills one line; after an error it goes on with the
next line. Blocks are nested afterwards, from the run of statements.
-/

namespace DiagramLint.Sequence

/-- A run of sequence diagram tokens. -/
abbrev Toks := List Tok

/-- A reading of part of a sequence diagram. -/
abbrev Read (α : Type) := Reading Kind ParseError α

/-- What a statement does to the nesting of blocks. -/
abbrev Event := BlockEvent BlockHead Statement ParseError

/-! ## Tokens ahead -/

/-- Whether a kind ends a line. -/
def Kind.endsLine (k : Kind) : Bool := k == .newline || k == .eof

instance : Recovery Kind ParseError where
  newline := .newline
  eof := .eof
  endsStatement := Kind.endsLine
  endsStatement_eof := rfl
  unexpected := .unexpected

/-- The text after a keyword or a colon, if there is one. -/
def trailing (ts : Toks) : Option String × Toks :=
  match ts with
  | t :: rest => if t.kind = .text then (some t.image, rest) else (none, ts)
  | [] => (none, [])

/-! ## Statements -/

/-- The first word of a text. -/
def firstName (text : String) : String :=
  String.ofList ((text.toList.dropWhile isWhiteSpace).takeWhile (!isWhiteSpace ·))

/-- A branch of the innermost block, which must be the keyword's own. -/
def branch (t : Tok) (parent : String) : Event :=
  .branched
    (fun head =>
      if head.keyword = parent then some { head with branches := head.branches ++ [t.line] }
      else none)
    (.branchOutsideBlock t.place t.image parent)

/-- A declaration, an activation, a note or a directive. -/
def declaration (t : Tok) (ts : Toks) : Read Statement :=
  match t.image with
  | "participant" | "actor" =>
    match trailing ts with
    | (some text, rest) => .ok (.participant t.line t.image (firstName text)) rest
    | (none, _) => refuse "a participant name" ts
  | "activate" | "deactivate" =>
    match ts with
    | target :: rest =>
      if target.kind = .ident then
        .ok (.activation t.line (t.image == "activate") target.image) rest
      else refuse "a participant" ts
    | [] => refuse "a participant" []
  | "note" =>
    match trailing ts with
    | (some _, rest) => .ok (.note t.line) rest
    | (none, _) => refuse "a note placement such as 'right of A: text'" ts
  | keyword => .ok (.directive t.line keyword) (trailing ts).2

/-- A statement that starts with a keyword. -/
def keywordStatement (t : Tok) (ts : Toks) : Read Event :=
  if blockKeywords.contains t.image then
    .ok (.opened { keyword := t.image, place := t.place, label := (trailing ts).1 }) (trailing ts).2
  else if t.image = "end" then .ok (.closed (.endWithoutBlock t.place)) ts
  else
    match branchParent? t.image with
    | some parent => .ok (branch t parent) (trailing ts).2
    | none => (declaration t ts).map .placed

/-- The tokens behind an activation sign, if there is one. -/
def skipActivation (ts : Toks) : Toks :=
  match ts with
  | t :: rest => if t.kind = .activation then rest else ts
  | [] => []

/-- The text of a message to `receiver`. What is neither a colon nor the end of the line is
reported as a missing colon, and skipped. -/
def messageText (receiver : Tok) (ts : Toks) : Read (Option String) :=
  match ts with
  | t :: rest =>
    if t.kind = .colon then .ok (trailing rest).1 (trailing rest).2
    else if t.kind.endsLine then .ok none ts
    else { value := some none, errors := [.missingColon receiver.endPlace], rest := recover ts }
  | [] => .ok none []

/-- A word that no arrow follows: a misspelled keyword, or a message without its arrow. -/
def withoutArrow (sender : Tok) (ts : Toks) : Read Message :=
  match nearestKeyword sender.image keywords with
  | some suggestion => .fail [.misspelledKeyword sender.place sender.image suggestion] (recover ts)
  | none => refuse "an arrow" ts

/-- A message from the participant just taken. -/
def message (sender : Tok) (ts : Toks) : Read Message :=
  match ts with
  | arrow :: rest =>
    if arrow.kind.isArrow then
      match skipActivation rest with
      | receiver :: rest =>
        if receiver.kind = .ident then
          (messageText receiver rest).map fun text =>
            { sender := sender.image, receiver := receiver.image, arrow := arrow.image,
              line := sender.line, text }
        else refuse "a participant" (receiver :: rest)
      | [] => refuse "a participant" []
    else withoutArrow sender ts
  | [] => withoutArrow sender ts

/-- The statement that starts with the token just taken; a line end is none. -/
def statement (t : Tok) (ts : Toks) : Read Event :=
  match t.kind with
  | .newline => .fail [] ts
  | .keyword => endLine (keywordStatement t ts)
  | .ident => endLine ((message t ts).map fun m => .placed (.message m))
  | _ => endLine (.fail (unexpected "a message, declaration or block" (t :: ts)) (recover ts))

/-! ## No statement takes a token that is not there -/

theorem trailing_length_le (ts : Toks) : (trailing ts).2.length ≤ ts.length := by
  unfold trailing
  split
  · split <;> simp
  · simp

theorem declaration_length_le (t : Tok) (ts : Toks) :
    (declaration t ts).rest.length ≤ ts.length := by
  have ht := trailing_length_le ts
  unfold declaration
  split
  · split
    · rename_i h; simpa [h, Reading.ok] using ht
    · exact refuse_length_le _ _
  · split
    · rename_i h; simpa [h, Reading.ok] using ht
    · exact refuse_length_le _ _
  · split
    · split
      · simp [Reading.ok]
      · exact refuse_length_le _ _
    · exact refuse_length_le _ _
  · split
    · split
      · simp [Reading.ok]
      · exact refuse_length_le _ _
    · exact refuse_length_le _ _
  · split
    · rename_i h; simpa [h, Reading.ok] using ht
    · exact refuse_length_le _ _
  · exact ht

theorem keywordStatement_length_le (t : Tok) (ts : Toks) :
    (keywordStatement t ts).rest.length ≤ ts.length := by
  have ht := trailing_length_le ts
  unfold keywordStatement
  split
  · exact ht
  · split
    · simp [Reading.ok]
    · split
      · exact ht
      · exact declaration_length_le t ts

theorem messageText_length_le (receiver : Tok) (ts : Toks) :
    (messageText receiver ts).rest.length ≤ ts.length := by
  unfold messageText
  split
  · rename_i t rest
    split
    · exact Nat.le_trans (trailing_length_le rest) (by simp)
    · split
      · simp [Reading.ok]
      · exact recover_length_le _
  · simp [Reading.ok]

theorem skipActivation_length_le (ts : Toks) : (skipActivation ts).length ≤ ts.length := by
  unfold skipActivation
  split
  · split <;> simp
  · simp

theorem withoutArrow_length_le (sender : Tok) (ts : Toks) :
    (withoutArrow sender ts).rest.length ≤ ts.length := by
  unfold withoutArrow
  split
  · exact recover_length_le _
  · exact refuse_length_le _ _

theorem message_length_le (sender : Tok) (ts : Toks) :
    (message sender ts).rest.length ≤ ts.length := by
  unfold message
  split
  · rename_i arrow rest
    have ha := skipActivation_length_le rest
    split
    · split
      · rename_i receiver rest' h
        rw [h] at ha
        split
        · have := messageText_length_le receiver rest'
          simp only [Reading.map, List.length_cons] at *
          omega
        · have : (refuse "a participant" (receiver :: rest') : Read Message).rest.length ≤ _ :=
            refuse_length_le _ _
          simp only [List.length_cons] at *
          omega
      · simp [refuse, recover, Reading.fail]
    · exact withoutArrow_length_le _ _
  · exact withoutArrow_length_le _ _

theorem statement_length_le (t : Tok) (ts : Toks) : (statement t ts).rest.length ≤ ts.length := by
  unfold statement
  split
  · simp [Reading.fail]
  · exact Nat.le_trans (endLine_length_le _) (keywordStatement_length_le t ts)
  · exact Nat.le_trans (endLine_length_le _) (message_length_le t ts)
  · exact Nat.le_trans (endLine_length_le _) (recover_length_le ts)

/-! ## Diagrams -/

/-- The statements of a diagram up to its end: what each does to the nesting, its errors, and the
tokens from the end on. -/
def statements (ts : Toks) : List (Option Event × List ParseError) × Toks :=
  match ts with
  | [] => ([], [])
  | t :: rest =>
    if t.kind = .eof then ([], t :: rest)
    else
      let (later, left) := statements (statement t rest).rest
      (((statement t rest).value, (statement t rest).errors) :: later, left)
termination_by ts.length
decreasing_by
  have := statement_length_le t rest
  simp only [List.length_cons]
  omega

/-- The errors about blocks still open at the end, innermost first. -/
def unclosed (blocks : List (BlockHead × List Statement)) : Toks → List ParseError
  | [] => []
  | eof :: _ => blocks.map fun (head, _) => .blockMissingEnd eof.place head.keyword head.place.line

/-- Parse a run of tokens. Without a header there is no tree. Every block still open at the end is
reported there and closed. -/
def parse (ts : Toks) : Parsed Diagram ParseError :=
  match ts.dropWhile (·.kind == .newline) with
  | [] => ⟨none, []⟩
  | header :: rest =>
    if header.kind = .header then
      let (read, left) := statements rest
      let (nesting, errors) := Nesting.run Statement.block {} read
      { tree := some
          { headerLine := header.line
            statements := Nesting.unwind Statement.block nesting.current nesting.blocks }
        errors := errors ++ unclosed nesting.blocks left }
    else ⟨none, unexpected "'sequenceDiagram' header" (header :: rest)⟩

end DiagramLint.Sequence
