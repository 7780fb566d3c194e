import DiagramLint.Text.CharTable

/-!
The Unicode property `White_Space`, which decides what trimming removes and where words end.
-/

namespace DiagramLint

/-- The code points with the property `White_Space`. -/
def whiteSpaceTable : CharTable :=
  [
    (0x9, 0xd), (0x20, 0x20), (0x85, 0x85), (0xa0, 0xa0), (0x1680, 0x1680), (0x2000, 0x200a),
    (0x2028, 0x2029), (0x202f, 0x202f), (0x205f, 0x205f), (0x3000, 0x3000)]

/-- Whether a character is white space. -/
def isWhiteSpace (c : Char) : Bool := whiteSpaceTable.holds c

example : isWhiteSpace ' ' && isWhiteSpace '\t' && isWhiteSpace '\n' && isWhiteSpace '\r' := by decide
example : isWhiteSpace '\u00a0' && isWhiteSpace '\u3000' && !isWhiteSpace '\u200b' := by decide

end DiagramLint
