/-!
Tables of code point ranges: the form in which a character property of the Unicode standard is
written down, and the question asked of it.
-/

namespace DiagramLint

/-- Closed ranges of code points, in ascending order. -/
abbrev CharTable := List (Nat × Nat)

namespace CharTable

/-- Whether some range of the table holds the character. -/
def holds (table : CharTable) (c : Char) : Bool :=
  table.any fun range => range.1 ≤ c.toNat && c.toNat ≤ range.2

end CharTable

end DiagramLint
