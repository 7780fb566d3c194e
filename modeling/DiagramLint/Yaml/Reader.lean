import DiagramLint.Lexing.Cursor
import DiagramLint.Yaml.Basic

/-!
Reading YAML: block and flow collections, plain and quoted scalars, comments and one document.

Blocks are told apart by the columns of their first characters. A value stands in a column to the
right of its collection, except that the dashes of a list may stand right under the key it
belongs to.
-/

namespace DiagramLint

namespace Yaml

/-! ## Lines -/

/-- A text whose lines all end with a line feed alone. -/
def unifyBreaks : Text → Text
  | '\r' :: '\n' :: rest => '\n' :: unifyBreaks rest
  | c :: rest => (if c = '\r' then '\n' else c) :: unifyBreaks rest
  | [] => []

/-- Whether a character may stand in a document. -/
def isPrintable (c : Char) : Bool :=
  let n := c.toNat
  c == '\t' || c == '\n' || (0x20 ≤ n && n ≤ 0x7e) || n == 0x85 || (0xa0 ≤ n && n < 0xfeff)
  || (0xfeff < n && n ≤ 0xfffd) || 0x10000 ≤ n

/-- Whether a text starts with a blank or a line end, or is at its end. -/
def startsBlank : Text → Bool
  | [] => true
  | c :: _ => c == ' ' || c == '\t' || c == '\n'

/-- Whether a line is three times the character `c`, possibly with something after a blank. -/
def isMarker (c : Char) (line : Text) : Bool :=
  line.take 3 == [c, c, c] && startsBlank (line.drop 3)

/-- Whether a line is empty or a comment. -/
def saysNothing (line : Text) : Bool :=
  match line.dropWhile fun c => c == ' ' || c == '\t' with
  | [] => true
  | c :: _ => c == '#'

/-- The lines of the only document. It may start with a line of dashes and end with one of
dots; a second document is refused. -/
def document? (lines : List Text) : Option (List Text) :=
  let lines := match lines.dropWhile saysNothing with
    | line :: rest => if isMarker '-' line then ("   ".toList ++ line.drop 3) :: rest else line :: rest
    | [] => []
  let body := lines.takeWhile fun line => !isMarker '.' line
  if body.any (isMarker '-') || !((lines.drop body.length).drop 1).all saysNothing then none
  else some body

/-- How many characters of blanks, comments and line ends a text starts with. Outside flow
collections tabs count only behind something on the line. -/
def triviaLength (flow : Bool) : (tabs comment : Bool) → Text → Nat
  | _, _, [] => 0
  | tabs, comment, c :: rest =>
    if c = '\n' then triviaLength flow flow false rest + 1
    else if comment || c == ' ' || (c == '\t' && tabs) then triviaLength flow tabs comment rest + 1
    else if c = '#' then triviaLength flow tabs true rest + 1
    else 0

/-- The cursor at the next thing that is not blank. -/
def skipTrivia (flow tabs : Bool) (c : Cursor) : Cursor :=
  c.skip (triviaLength flow tabs false c.rest)

/-- The cursor behind the blanks on its line. -/
def skipSpaces (c : Cursor) : Cursor := (c.takeWhile fun c => c == ' ' || c == '\t').2

/-- Whether nothing but a comment is left on the line. -/
def atLineEnd (c : Cursor) : Bool :=
  match (skipSpaces c).rest with
  | [] => true
  | d :: _ => d == '\n' || d == '#'

/-! ## Scalars -/

/-- Blanks and line ends inside a scalar: one line end stands for a space, and of several the
first is left out. Blanks around them do not count. -/
def folded (gap : Text) : Text :=
  match gap.count '\n' with
  | 0 => gap
  | 1 => [' ']
  | n + 2 => List.replicate (n + 1) '\n'

/-- The characters that end a plain scalar in a flow collection. -/
def isFlowMark (c : Char) : Bool := [',', '[', ']', '{', '}'].contains c

/-- The length of the part of a plain scalar that stands on one line, with blanks at its end. -/
def plainLength (flow : Bool) : (afterBlank : Bool) → Text → Nat
  | _, [] => 0
  | afterBlank, c :: rest =>
    if c = '\n' ∨ (c = '#' ∧ afterBlank) ∨ (c = ':' ∧ startsBlank rest) ∨ (flow ∧ isFlowMark c) then 0
    else plainLength flow (c == ' ' || c == '\t') rest + 1

/-- The part of a plain scalar that stands on one line. -/
def plainPart (flow : Bool) (c : Cursor) : Text :=
  Text.dropEndWhile (fun c => c == ' ' || c == '\t') (c.rest.take (plainLength flow true c.rest))

/-- A plain scalar. It goes on with the next line as long as that line is indented beyond the
column `parent`; in a flow collection indentation does not count. -/
def readPlain (flow : Bool) (parent : Nat) : (fuel : Nat) → Cursor → Text × Cursor
  | 0, c => ([], c)
  | fuel + 1, c =>
    let part := plainPart flow c
    let after := c.skip part.length
    let gap := after.rest.takeWhile fun c => c == ' ' || c == '\t' || c == '\n'
    let next := after.skip gap.length
    if gap.contains '\n' ∧ (flow ∨ parent < next.column) ∧ plainLength flow true next.rest ≠ 0 then
      let (more, last) := readPlain flow parent fuel next
      (part ++ folded gap ++ more, last)
    else (part, after)

/-- Whether a plain scalar can start with a text. -/
def startsPlain (flow : Bool) : Text → Bool
  | [] => false
  | c :: rest =>
    if c = '-' then !startsBlank rest
    else if c = '?' ∨ c = ':' then !flow && !startsBlank rest
    else !(startsBlank (c :: rest) || isFlowMark c || "#&*!|>'\"%@`".toList.contains c)

/-- The character with a number of hexadecimal digits. -/
def hexChar? (digits : Text) : Option Char := do
  let n ← digitsIn? 16 digits
  if n.isValidChar then some (Char.ofNat n) else none

/-- The character that a letter after a backslash stands for. -/
def escape? : Char → Option Char
  | '0' => some (Char.ofNat 0)
  | 'a' => some (Char.ofNat 7)
  | 'b' => some (Char.ofNat 8)
  | 't' | '\t' => some '\t'
  | 'n' => some '\n'
  | 'v' => some (Char.ofNat 11)
  | 'f' => some (Char.ofNat 12)
  | 'r' => some '\r'
  | 'e' => some (Char.ofNat 27)
  | 'N' => some (Char.ofNat 0x85)
  | '_' => some (Char.ofNat 0xa0)
  | 'L' => some (Char.ofNat 0x2028)
  | 'P' => some (Char.ofNat 0x2029)
  | ' ' => some ' '
  | '"' => some '"'
  | '/' => some '/'
  | '\\' => some '\\'
  | _ => none

/-- The rest of a scalar in double quotes and the number of characters it takes, closing quote
included. `gap` holds the blanks and line ends just read, the last one first. -/
def readDouble (gap : Text) : Text → Option (Text × Nat)
  | [] => none
  | '"' :: _ => some (folded gap.reverse, 1)
  | '\\' :: 'x' :: a :: b :: rest => do
    let c ← hexChar? [a, b]
    let (chars, n) ← readDouble [] rest
    return (folded gap.reverse ++ c :: chars, n + 4)
  | '\\' :: 'u' :: a :: b :: c :: d :: rest => do
    let c ← hexChar? [a, b, c, d]
    let (chars, n) ← readDouble [] rest
    return (folded gap.reverse ++ c :: chars, n + 6)
  | '\\' :: c :: rest => do
    let c ← escape? c
    let (chars, n) ← readDouble [] rest
    return (folded gap.reverse ++ c :: chars, n + 2)
  | c :: rest => do
    if c = ' ' ∨ c = '\t' ∨ c = '\n' then
      let (chars, n) ← readDouble (c :: gap) rest
      return (chars, n + 1)
    else
      let (chars, n) ← readDouble [] rest
      return (folded gap.reverse ++ c :: chars, n + 1)

/-- The rest of a scalar in single quotes, in which a quote is written twice, and the number of
characters it takes. -/
def readSingle (gap : Text) : Text → Option (Text × Nat)
  | [] => none
  | '\'' :: '\'' :: rest => do
    let (chars, n) ← readSingle [] rest
    return (folded gap.reverse ++ '\'' :: chars, n + 2)
  | c :: rest => do
    if c = '\'' then some (folded gap.reverse, 1)
    else if c = ' ' ∨ c = '\t' ∨ c = '\n' then
      let (chars, n) ← readSingle (c :: gap) rest
      return (chars, n + 1)
    else
      let (chars, n) ← readSingle [] rest
      return (folded gap.reverse ++ c :: chars, n + 1)

/-- A scalar of any style. -/
def readScalar (flow : Bool) (parent : Nat) (c : Cursor) : Option (Yaml × Cursor) :=
  match c.rest with
  | '"' :: rest => (readDouble [] rest).map fun (chars, n) =>
    (.scalar false (String.ofList chars), c.skip (n + 1))
  | '\'' :: rest => (readSingle [] rest).map fun (chars, n) =>
    (.scalar false (String.ofList chars), c.skip (n + 1))
  | t =>
    if startsPlain flow t then
      let (chars, after) := readPlain flow parent (t.length + 1) c
      some (.scalar true (String.ofList chars), after)
    else none

/-! ## Flow collections -/

/-- The cursor behind the colon that makes what stands between two cursors a key; both must be on
one line. -/
def flowColon? (start after : Cursor) : Option Cursor :=
  let after := skipTrivia true true after
  if after.line = start.line ∧ after.rest.head? = some ':' then some after.next else none

mutual

/-- A value in a flow collection. -/
def readFlow : (fuel : Nat) → Cursor → Option (Yaml × Cursor)
  | 0, _ => none
  | fuel + 1, c =>
    match c.rest.head? with
    | some '[' => (readFlowItems fuel c.next).map fun (items, after) => (.list items, after)
    | some '{' => (readFlowEntries fuel c.next).map fun (entries, after) => (.mapping entries, after)
    | _ => readScalar true 0 c

/-- What follows a colon in a flow collection, which may be nothing. -/
def readFlowValue : (fuel : Nat) → Cursor → Option (Yaml × Cursor)
  | 0, _ => none
  | fuel + 1, c =>
    let c := skipTrivia true true c
    match c.rest.head? with
    | some ',' | some ']' | some '}' => some (nothing, c)
    | _ => readFlow fuel c

/-- The items of a flow list up to its closing bracket. A key with a value is a mapping. -/
def readFlowItems : (fuel : Nat) → Cursor → Option (List Yaml × Cursor)
  | 0, _ => none
  | fuel + 1, c => do
    let c := skipTrivia true true c
    if c.rest.head? = some ']' then return ([], c.next)
    let (item, after) ← readFlow fuel c
    let (item, after) ← match flowColon? c after with
      | some after => do
        let (value, after) ← readFlowValue fuel after
        pure (.mapping [(item, value)], after)
      | none => pure (item, after)
    let after := skipTrivia true true after
    match after.rest.head? with
    | some ',' =>
      let (items, after) ← readFlowItems fuel after.next
      return (item :: items, after)
    | some ']' => return ([item], after.next)
    | _ => none

/-- The entries of a flow mapping up to its closing bracket. A key may have no value. -/
def readFlowEntries : (fuel : Nat) → Cursor → Option (List (Yaml × Yaml) × Cursor)
  | 0, _ => none
  | fuel + 1, c => do
    let c := skipTrivia true true c
    if c.rest.head? = some '}' then return ([], c.next)
    let (key, after) ← readFlow fuel c
    let (value, after) ← match flowColon? c after with
      | some after => readFlowValue fuel after
      | none => pure (nothing, after)
    let after := skipTrivia true true after
    match after.rest.head? with
    | some ',' =>
      let (entries, after) ← readFlowEntries fuel after.next
      return ((key, value) :: entries, after)
    | some '}' => return ([(key, value)], after.next)
    | _ => none

end

/-! ## Blocks -/

/-- Whether a cursor stands at the dash of a list item. -/
def atDash (c : Cursor) : Bool :=
  match c.rest with
  | '-' :: rest => startsBlank rest
  | _ => false

/-- The cursor behind the colon that makes what stands between two cursors of one line a key. -/
def blockColon? (start after : Cursor) : Option Cursor :=
  let after := skipSpaces after
  match after.rest with
  | ':' :: rest => if after.line = start.line ∧ startsBlank rest then some after.next else none
  | _ => none

mutual

/-- The value behind a dash or a colon, or that of the document. `parent` is the column of its
collection, 0 for the document. Behind a colon (`keyed`) a block starts on a line of its own, and
a list may start in the column of the key. -/
def readBlock : (fuel parent : Nat) → (keyed : Bool) → Cursor → Option (Yaml × Cursor)
  | 0, _, _, _ => none
  | fuel + 1, parent, keyed, c =>
    let start := skipTrivia false keyed c
    let opens := c.line < start.line || !keyed
    if start.isEof then some (nothing, start)
    else if start.column ≤ parent then
      if keyed ∧ start.column = parent ∧ atDash start then
        (readItems fuel parent start).map fun (items, after) => (.list items, after)
      else some (nothing, c)
    else if atDash start then
      if opens then
        (readItems fuel start.column start).map fun (items, after) => (.list items, after)
      else none
    else do
      let (v, after) ← readInline fuel parent start
      if (blockColon? start after).isSome then
        if opens then
          (readEntries fuel start.column start).map fun (entries, after) => (.mapping entries, after)
        else none
      else if atLineEnd after then some (v, after)
      else none

/-- A scalar or a flow collection. -/
def readInline : (fuel parent : Nat) → Cursor → Option (Yaml × Cursor)
  | 0, _, _ => none
  | fuel + 1, parent, c =>
    match c.rest.head? with
    | some '[' | some '{' => readFlow fuel c
    | _ => readScalar false parent c

/-- The items of a list whose dashes stand in a column. -/
def readItems : (fuel column : Nat) → Cursor → Option (List Yaml × Cursor)
  | 0, _, _ => none
  | fuel + 1, column, c => do
    let (item, after) ← readBlock fuel column false c.next
    let next := skipTrivia false true after
    if next.isEof ∨ next.column < column ∨ (next.column = column ∧ ¬ atDash next) then
      return ([item], after)
    else if next.column = column then
      let (items, after) ← readItems fuel column next
      return (item :: items, after)
    else none

/-- The entries of a mapping whose keys stand in a column. -/
def readEntries : (fuel column : Nat) → Cursor → Option (List (Yaml × Yaml) × Cursor)
  | 0, _, _ => none
  | fuel + 1, column, c => do
    let (key, after) ← readInline fuel column c
    let (value, after) ← readBlock fuel column true (← blockColon? c after)
    let next := skipTrivia false true after
    if next.isEof ∨ next.column < column then return ([(key, value)], after)
    else if next.column = column then
      let (entries, after) ← readEntries fuel column next
      return ((key, value) :: entries, after)
    else none

end

/-- The value a text spells; a text that says nothing spells nothing. Every step of the reading
takes a character or goes one level deeper into a value, so the length of the text bounds their
number. -/
def read (t : Text) : Option Yaml := do
  let t := unifyBreaks t
  if !t.all isPrintable then none
  let lines ← document? t.pieces
  let t : Text := (lines.map (· ++ ['\n'])).flatten
  let (v, after) ← readBlock (4 * t.length + 8) 0 false (Cursor.ofText t)
  if (skipTrivia false true after).isEof then some v else none

end Yaml

end DiagramLint
