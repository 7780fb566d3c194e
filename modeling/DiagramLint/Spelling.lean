import DiagramLint.Text.Alphanumeric
import DiagramLint.Text.Casing

/-!
Misspelled keywords: the edit distance between words, the keyword nearest to a word, and the hint
by which a diagnostic hands its suggestion to the repair.
-/

namespace DiagramLint

/-! ## Distance -/

/-- The rest of a row of distances, for one more character `c` of the first word: `left` is the
entry just made, `above` the row before from the entry above `left` on. -/
def distanceRow (c : Char) : (left : Nat) → (word : List Char) → (above : List Nat) → List Nat
  | left, d :: word, diagonal :: up :: above =>
    let entry := min (min (diagonal + if c = d then 0 else 1) (up + 1)) (left + 1)
    entry :: distanceRow c entry word (up :: above)
  | _, _, _ => []

/-- The row below `above`, for one more character of the first word. -/
def nextDistanceRow (word : List Char) (above : List Nat) (c : Char) : List Nat :=
  let left := above.headD 0 + 1
  left :: distanceRow c left word above

/-- The number of single-character insertions, deletions and substitutions that lead from one word
to the other. Row `i` holds the distances of the first `i` characters of `a` to every beginning of
`b`. -/
def editDistance (a b : List Char) : Nat :=
  (a.foldl (nextDistanceRow b) (List.range (b.length + 1))).getLastD 0

example : editDistance "subgrph".toList "subgraph".toList = 1 := by decide
example : editDistance "kitten".toList "sitting".toList = 3 := by decide

/-! ## Nearest keyword -/

/-- The largest distance at which a word counts as a misspelled keyword. -/
def maxKeywordDistance : Nat := 2

/-- The shortest word that can be a misspelled keyword. -/
def minKeywordLength : Nat := 4

/-- The nearer of the best keyword so far and a next one; the earlier wins a tie. -/
def nearer (word : String) (best : Option (Nat × String)) (keyword : String) :
    Option (Nat × String) :=
  let distance := editDistance word.toList (lowercase keyword).toList
  if distance ≤ maxKeywordDistance && best.all (fun b => distance < b.1) then
    some (distance, keyword)
  else best

/-- The keyword that a word most likely misspells, regardless of case. A keyword itself is no
misspelling, and a short word is never taken for one. -/
def nearestKeyword (word : String) (keywords : List String) : Option String :=
  if word.length < minKeywordLength || keywords.contains word then none
  else (keywords.foldl (nearer (lowercase word)) none).map (·.2)

/-! ## Hints -/

/-- The characters of words in a diagram. -/
def isWordChar (c : Char) : Bool := isAlphanumeric c || c == '_' || c == '-'

/-- How a keyword hint begins. -/
def keywordHintStart : String := "Replace with '"

/-- The hint that names the keyword a word should become. -/
def keywordHint (keyword : String) : String := keywordHintStart ++ keyword ++ "'"

/-- The keyword that a hint names. -/
def hintedKeyword? (hint : String) : Option String :=
  if keywordHintStart.toList.isPrefixOf hint.toList then
    let quoted := hint.toList.drop keywordHintStart.length
    let keyword := quoted.dropLast
    if quoted.getLast? = some '\'' ∧ !keyword.isEmpty ∧ keyword.all isWordChar then
      some (String.ofList keyword)
    else none
  else none

end DiagramLint
