import DiagramLint.Text.Basic

/-!
The delimited span around a place in a line: between two quotation marks or between two matching
brackets.
-/

namespace DiagramLint

/-- What can enclose a label. -/
inductive Delimiter where
  /-- Double quotes; one behind a backslash does not count. -/
  | quote
  /-- A pair of brackets. -/
  | pair (opener closer : Char)
  deriving DecidableEq, Repr

/-- The indexes of the two delimiters of a span. -/
structure DelimitedSpan where
  opening : Nat
  closing : Nat
  deriving DecidableEq, Repr

/-- The indexes of the quotation marks that count, in a text that starts at index `i` behind the
character `previous`. -/
def quoteIndexes (previous : Option Char) (i : Nat) : Text → List Nat
  | [] => []
  | c :: rest =>
    if c = '"' ∧ previous ≠ some '\\' then i :: quoteIndexes (some c) (i + 1) rest
    else quoteIndexes (some c) (i + 1) rest

/-- Consecutive entries taken in pairs; an odd one at the end is left out. -/
def spansOf : List Nat → List DelimitedSpan
  | a :: b :: rest => ⟨a, b⟩ :: spansOf rest
  | _ => []

/-- The quoted span that holds a place, its quotation marks included. -/
def quoteSpan? (line : Text) (caret : Nat) : Option DelimitedSpan :=
  (spansOf (quoteIndexes none 0 line)).find? fun s => s.opening ≤ caret && caret ≤ s.closing

/-- How many characters stand before the first bracket that closes more than was opened, when
`depth` brackets are open. -/
def unmatchedAt? (opener closer : Char) : (depth : Nat) → Text → Option Nat
  | _, [] => none
  | depth, c :: rest =>
    if c = opener then (unmatchedAt? opener closer (depth + 1) rest).map (· + 1)
    else if c = closer then
      match depth with
      | 0 => some 0
      | depth + 1 => (unmatchedAt? opener closer depth rest).map (· + 1)
    else (unmatchedAt? opener closer depth rest).map (· + 1)

/-- The innermost bracketed span around a place: the unmatched opening bracket before it and the
unmatched closing bracket from it on. Read backwards, an opening bracket closes. -/
def pairSpan? (opener closer : Char) (line : Text) (caret : Nat) : Option DelimitedSpan := do
  let caret := min caret line.length
  let before ← unmatchedAt? closer opener 0 (line.take caret).reverse
  let after ← unmatchedAt? opener closer 0 (line.drop caret)
  return ⟨caret - 1 - before, caret + after⟩

/-- The span of one delimiter around a place. -/
def Delimiter.span? (line : Text) (caret : Nat) : Delimiter → Option DelimitedSpan
  | .quote => quoteSpan? line caret
  | .pair opener closer => pairSpan? opener closer line caret

/-- The shorter of two spans; the first wins a tie. -/
def DelimitedSpan.shorter (a b : DelimitedSpan) : DelimitedSpan :=
  if b.closing - b.opening < a.closing - a.opening then b else a

/-- The shortest span around a place; of equal ones, that of the earliest delimiter. -/
def enclosingSpan? (line : Text) (caret : Nat) (delimiters : List Delimiter) :
    Option DelimitedSpan :=
  match delimiters.filterMap (·.span? line caret) with
  | [] => none
  | first :: rest => some (rest.foldl DelimitedSpan.shorter first)

end DiagramLint
