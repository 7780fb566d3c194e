import DiagramLint.Text.CaseTable

/-!
Full case mapping of texts. A character may map to several, and a capital sigma that ends a word
becomes the final small sigma.
-/

namespace DiagramLint

/-- The character a list of runs maps `c` to. -/
def CaseRun.apply (runs : List CaseRun) (c : Char) : Char :=
  match runs.find? (·.maps c.toNat) with
  | some run => Char.ofNat (c.toNat + run.offset).toNat
  | none => c

/-- The lower case of one character, apart from its surroundings. -/
def lowerChar (c : Char) : List Char :=
  if c = '\u0130' then ['i', '\u0307'] else [CaseRun.apply lowerRuns c]

/-- The upper case of one character. -/
def upperChar (c : Char) : List Char :=
  match upperExpansions.lookup c.toNat with
  | some expansion => expansion.map Char.ofNat
  | none => [CaseRun.apply upperRuns c]

/-- Whether a cased character comes first once the case-ignorable ones are skipped. -/
def casedAhead (t : List Char) : Bool :=
  match t.dropWhile caseIgnorableTable.holds with
  | [] => false
  | c :: _ => casedTable.holds c

/-- The lower case of a text whose preceding characters, nearest first, are `before`. -/
def lowerAfter (before : List Char) : List Char → List Char
  | [] => []
  | c :: rest =>
    let lowered :=
      if c = 'Σ' then
        if casedAhead before && !casedAhead rest then ['ς'] else ['σ']
      else lowerChar c
    lowered ++ lowerAfter (c :: before) rest

/-- The lower case of a string. -/
def lowercase (s : String) : String := String.ofList (lowerAfter [] s.toList)

/-- The upper case of a string. -/
def uppercase (s : String) : String := String.ofList (s.toList.flatMap upperChar)

end DiagramLint
