import DiagramLint.Text.Basic

/-!
The links between flowchart nodes, as patterns at the start of a line's rest: each pattern gives
the number of characters it matches.

* plain link: an optional `<`, then two or more dashes, two or more equals signs or dots between
  two dashes, then an optional head; or three or more tildes
* link with text: an opening half, blanks, a text, a closing half
* invalid link: an arrow of a single dash or equals sign
-/

namespace DiagramLint.Flowchart

/-- The length of the run of `c` at the start of a text. -/
def runLength (c : Char) (t : Text) : Nat := (t.takeWhile (· == c)).length

/-- The length of an optional arrow head. -/
def headLength : Text → Nat
  | '>' :: _ | 'o' :: _ | 'x' :: _ => 1
  | _ => 0

/-- The shaft of a plain link: dashes, equals signs, or dots between two dashes. -/
def shaft? (t : Text) : Option Nat :=
  let dashes := runLength '-' t
  let equals := runLength '=' t
  let dots := runLength '.' (t.drop 1)
  if 2 ≤ dashes then some dashes
  else if 2 ≤ equals then some equals
  else if dashes = 1 ∧ 1 ≤ dots ∧ (t.drop (1 + dots)).head? = some '-' then some (dots + 2)
  else none

/-- A link without text. -/
def plainLink? (t : Text) : Option Nat :=
  let tail := if t.head? = some '<' then 1 else 0
  match shaft? (t.drop tail) with
  | some shaft => some (tail + shaft + headLength (t.drop (tail + shaft)))
  | none => if 3 ≤ runLength '~' t then some (runLength '~' t) else none

/-- The closing half of a link with text. -/
def closingHalf? (t : Text) : Option Nat :=
  let dashes := runLength '-' t
  let equals := runLength '=' t
  let dotted := runLength '-' (t.drop 1)
  if 2 ≤ dashes ∧ (t.drop dashes).head? = some '>' then some (dashes + 1)
  else if 3 ≤ dashes then some dashes
  else if 2 ≤ equals ∧ (t.drop equals).head? = some '>' then some (equals + 1)
  else if 3 ≤ equals then some equals
  else if t.head? = some '.' ∧ 1 ≤ dotted then
    if (t.drop (1 + dotted)).head? = some '>' then some (dotted + 2) else some (dotted + 1)
  else none

/-- The characters up to and with the first closing half; a bar or the end of the line must not
come before it. -/
def throughClosingHalf? : Text → Option Nat
  | [] => none
  | c :: rest =>
    match closingHalf? (c :: rest) with
    | some n => some n
    | none => if c = '|' ∨ c = '\n' then none else (throughClosingHalf? rest).map (· + 1)

/-- Whether a link with text starts here with its opening half. -/
def opensTextLink (t : Text) : Bool :=
  t.startsWith ['-', '-'] || t.startsWith ['=', '='] || t.startsWith ['-', '.']

/-- A link with text. The text must not start like a half; a second blank before it counts as its
first character, and lets it be empty. -/
def textLink? (t : Text) : Option Nat :=
  if opensTextLink t then
    let blanks := ((t.drop 2).takeWhile fun c => c == ' ' || c == '\t').length
    if blanks = 0 then none
    else
      match t.drop (2 + blanks) with
      | [] => none
      | c :: rest =>
        if c = '-' ∨ c = '=' ∨ c = '.' ∨ c = '|' ∨ c = '\n' then
          if blanks = 1 then none
          else (throughClosingHalf? (c :: rest)).map (· + (2 + blanks))
        else (throughClosingHalf? rest).map (· + (2 + blanks + 1))
  else none

/-- An arrow that flowcharts do not have. -/
def invalidLink? (t : Text) : Option Nat :=
  if t.startsWith ['-', '>'] || t.startsWith ['=', '>'] then some 2 else none

/-- Whether a text starts with something that looks like a link; such text ends an unquoted
label. -/
def startsLink (t : Text) : Bool :=
  [['-', '-'], ['=', '='], ['-', '.'], ['-', '>'], ['=', '>'], ['~', '~', '~'], ['<', '-'],
    ['<', '=']].any t.startsWith

end DiagramLint.Flowchart
