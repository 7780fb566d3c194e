import DiagramLint.Machine
import DiagramLint.Parsing.Reading
import DiagramLint.Pie.Token
import DiagramLint.Pie.Tree
import DiagramLint.Spelling

/-!
The pie chart parser. Every statement fills one line; after an error it goes on with the next
line.
-/

namespace DiagramLint.Pie

/-- A run of pie chart tokens. -/
abbrev Toks := List Tok

/-- A reading of part of a pie chart. -/
abbrev Read (α : Type) := Reading Kind ParseError α

/-! ## Tokens ahead -/

/-- Whether a kind ends a line. -/
def Kind.endsLine (k : Kind) : Bool := k == .newline || k == .eof

instance : Recovery Kind ParseError where
  newline := .newline
  eof := .eof
  endsStatement := Kind.endsLine
  endsStatement_eof := rfl
  unexpected := .unexpected

/-! ## Entries -/

/-- The number that the image of a token spells. -/
def numberValue? (image : String) : Option Binary64 := Binary64.ofText? image.toList

/-- The value of an entry with a label. -/
def entryValue (label : String) (place : Position) (ts : Toks) : Read Entry :=
  match ts with
  | t :: rest =>
    if t.kind = .number then
      match numberValue? t.image with
      | some value =>
        .ok { label, place, value, valueColumn := t.column, valueLength := t.width } rest
      | none => refuse "a number" ts
    else refuse "a number" ts
  | [] => refuse "a number" []

/-- The text of a label without its quotation marks. -/
def unquote (image : String) : String :=
  match image.toList with
  | '"' :: rest =>
    if rest.getLast? = some '"' then String.ofList rest.dropLast else image
  | _ => image

/-- An entry whose label is the string just taken. A missing colon is reported and passed over. -/
def quotedEntry (t : Tok) (ts : Toks) : Read Entry :=
  match ts with
  | c :: rest =>
    if c.kind = .colon then entryValue (unquote t.image) t.place rest
    else if c.kind = .number then
      (entryValue (unquote t.image) t.place ts).after [.missingColon t.endPlace]
    else refuse "':' after the label" ts
  | [] => refuse "':' after the label" []

/-- The words a misspelled first word is compared with. -/
def keywords : List String := ["title", "showData"]

/-- The keyword that a word misspells: only a word that no colon and no number follows is taken
for one. -/
def misspelled (t : Tok) (ts : Toks) : Option String :=
  if kindAhead ts = .colon ∨ kindAhead ts = .number then none else nearestKeyword t.image keywords

/-- An entry whose label is not quoted and starts with the word just taken. The label is reported
and the entry kept. -/
def bareEntry (t : Tok) (ts : Toks) : Read Entry :=
  match misspelled t ts with
  | some suggestion => .fail [.misspelledKeyword t.place t.image suggestion] (recover ts)
  | none =>
    let words := t :: ts.takeWhile (·.kind == .word)
    match ts.dropWhile (·.kind == .word) with
    | c :: rest =>
      if c.kind = .colon then
        let label := " ".intercalate (words.map (·.image))
        let length := wordSub (words.getLastD t).endColumn t.column
        (entryValue label t.place rest).after [.unquotedLabel t.place length label]
      else refuse "':' after the label" (c :: rest)
    | [] => refuse "':' after the label" []

/-! ## Charts -/

/-- What one statement adds to a chart. -/
inductive Part where
  | showData
  | title (text : Option String)
  | entry (entry : Entry)
  deriving DecidableEq, Repr

/-- The chart with a part added. -/
def Chart.add (chart : Chart) : Part → Chart
  | .showData => { chart with showData := true }
  | .title none => chart
  | .title (some text) => { chart with title := some text }
  | .entry entry => { chart with entries := chart.entries ++ [entry] }

/-- The title text, if there is one. -/
def titleText (ts : Toks) : Option String × Toks :=
  match ts with
  | t :: rest => if t.kind = .text then (some t.image, rest) else (none, ts)
  | [] => (none, [])

/-- The statement that starts with the token just taken. What follows `showData` may go on on the
same line; every other statement ends its line. -/
def statement (t : Tok) (ts : Toks) : Read Part :=
  match t.kind with
  | .newline => .fail [] ts
  | .showData => .ok .showData ts
  | .title => endLine (.ok (.title (titleText ts).1) (titleText ts).2)
  | .str => endLine ((quotedEntry t ts).map .entry)
  | .word => endLine ((bareEntry t ts).map .entry)
  | _ => endLine (.fail (unexpected "a quoted label, 'title' or 'showData'" (t :: ts)) (recover ts))

theorem entryValue_length_le (label : String) (place : Position) (ts : Toks) :
    (entryValue label place ts).rest.length ≤ ts.length := by
  unfold entryValue
  split
  · split
    · split
      · simp [Reading.ok]
      · exact recover_length_le _
    · exact recover_length_le _
  · exact recover_length_le _

theorem quotedEntry_length_le (t : Tok) (ts : Toks) :
    (quotedEntry t ts).rest.length ≤ ts.length := by
  unfold quotedEntry
  split
  · split
    · exact Nat.le_trans (entryValue_length_le _ _ _) (by simp)
    · split
      · exact entryValue_length_le _ _ _
      · exact recover_length_le _
  · exact recover_length_le _

theorem bareEntry_length_le (t : Tok) (ts : Toks) : (bareEntry t ts).rest.length ≤ ts.length := by
  unfold bareEntry
  split
  · exact recover_length_le _
  · have hd : (ts.dropWhile (·.kind == .word)).length ≤ ts.length :=
      (List.dropWhile_sublist _).length_le
    split
    · rename_i c rest hc
      rw [hc] at hd
      split
      · exact Nat.le_trans (entryValue_length_le _ _ rest) (Nat.le_of_succ_le hd)
      · exact Nat.le_trans (recover_length_le _) hd
    · simp [refuse, recover, Reading.fail]

/-- A statement takes no token that is not there. -/
theorem statement_length_le (t : Tok) (ts : Toks) : (statement t ts).rest.length ≤ ts.length := by
  unfold statement
  split
  · simp [Reading.fail]
  · simp [Reading.ok]
  · refine Nat.le_trans (endLine_length_le _) ?_
    unfold titleText
    split
    · split <;> simp [Reading.ok]
    · simp [Reading.ok]
  · exact Nat.le_trans (endLine_length_le _) (quotedEntry_length_le t ts)
  · exact Nat.le_trans (endLine_length_le _) (bareEntry_length_le t ts)
  · exact Nat.le_trans (endLine_length_le _) (recover_length_le ts)

/-- The statements of a chart: what each adds, and its errors. -/
def statements (ts : Toks) : List (Option Part × List ParseError) :=
  match ts with
  | [] => []
  | t :: rest =>
    if t.kind = .eof then []
    else ((statement t rest).value, (statement t rest).errors) :: statements (statement t rest).rest
termination_by ts.length
decreasing_by
  have := statement_length_le t rest
  simp only [List.length_cons]
  omega

/-- Parse a run of tokens. Without a header there is no tree. -/
def parse (ts : Toks) : Parsed Chart ParseError :=
  match ts.dropWhile (·.kind == .newline) with
  | [] => ⟨none, []⟩
  | header :: rest =>
    if header.kind = .header then
      let read := statements rest
      { tree := some ((read.filterMap (·.1)).foldl Chart.add {})
        errors := read.flatMap (·.2) }
    else ⟨none, unexpected "'pie' header" (header :: rest)⟩

end DiagramLint.Pie
