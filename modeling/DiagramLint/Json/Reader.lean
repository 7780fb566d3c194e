import DiagramLint.Json.Basic
import DiagramLint.Text.Basic

/-!
Reading JSON. A text is one value with blanks around it; anything else is refused: raw controls in
strings, lone surrogates, numbers with leading zeros, trailing commas, nesting beyond the limit.
-/

namespace DiagramLint

namespace Json

/-- A text without the blanks at its start. -/
def skipBlanks (t : Text) : Text :=
  t.dropWhile fun c => c == ' ' || c == '\t' || c == '\n' || c == '\r'

/-- The value of a hexadecimal digit in either case. -/
def hexValue? (c : Char) : Option Nat :=
  if '0' ≤ c ∧ c ≤ '9' then some (c.toNat - '0'.toNat)
  else if 'a' ≤ c ∧ c ≤ 'f' then some (c.toNat - 'a'.toNat + 10)
  else if 'A' ≤ c ∧ c ≤ 'F' then some (c.toNat - 'A'.toNat + 10)
  else none

/-- The value of four hexadecimal digits. -/
def hexUnit? (a b c d : Char) : Option Nat := do
  return ((← hexValue? a) * 16 + (← hexValue? b)) * 256 + (← hexValue? c) * 16 + (← hexValue? d)

/-- The character a letter after a backslash stands for. -/
def escaped? (c : Char) : Option Char :=
  if c = '"' || c = '\\' || c = '/' then some c
  else if c = 'n' then some '\n'
  else if c = 'r' then some '\r'
  else if c = 't' then some '\t'
  else if c = 'b' then some (Char.ofNat 0x08)
  else if c = 'f' then some (Char.ofNat 0x0c)
  else none

/-- The rest of a string after its opening quotation mark, and what follows the closing one. -/
def readChars (t : Text) : Option (Text × Text) :=
  match t with
  | [] => none
  | '"' :: rest => some ([], rest)
  | '\\' :: 'u' :: a :: b :: c :: d :: rest => do
    let unit ← hexUnit? a b c d
    if unit < 0xd800 ∨ 0xe000 ≤ unit then
      let (chars, rest) ← readChars rest
      return (Char.ofNat unit :: chars, rest)
    else
      match rest with
      | '\\' :: 'u' :: e :: f :: g :: h :: rest =>
        let low ← hexUnit? e f g h
        if unit < 0xdc00 ∧ 0xdc00 ≤ low ∧ low < 0xe000 then
          let (chars, rest) ← readChars rest
          return (Char.ofNat (0x10000 + (unit - 0xd800) * 0x400 + (low - 0xdc00)) :: chars, rest)
        else none
      | _ => none
  | '\\' :: c :: rest => do
    let c ← escaped? c
    let (chars, rest) ← readChars rest
    return (c :: chars, rest)
  | c :: rest =>
    if c.toNat < 0x20 ∨ c = '\\' then none
    else do
      let (chars, rest) ← readChars rest
      return (c :: chars, rest)
termination_by t.length

/-- The digits at the start of a text, of which there must be one. -/
def readDigits (t : Text) : Option (Text × Text) :=
  let digits := t.takeWhile Char.isDigit
  if digits.isEmpty then none else some (digits, t.dropWhile Char.isDigit)

/-- The integer part of a number: one zero, or digits that start with another. -/
def readWhole (t : Text) : Option (Text × Text) := do
  let (digits, rest) ← readDigits t
  if digits.length > 1 ∧ digits.head? = some '0' then none else some (digits, rest)

/-- Whether a number has a minus sign, and what follows it. -/
def readSign : Text → Bool × Text
  | '-' :: rest => (true, rest)
  | t => (false, t)

/-- The digits of a fraction, if there is one. -/
def readFraction : Text → Option (Text × Text)
  | '.' :: rest => readDigits rest
  | t => some ([], t)

/-- The sign and the digits of an exponent. -/
def readPower : Text → Option (Int × Text)
  | '-' :: rest => (readDigits rest).map fun (digits, rest) => (-Text.digitsValue digits, rest)
  | '+' :: rest | rest =>
    (readDigits rest).map fun (digits, rest) => (Text.digitsValue digits, rest)

/-- An exponent, if there is one. -/
def readExponent : Text → Option (Option Int × Text)
  | 'e' :: rest | 'E' :: rest => (readPower rest).map fun (power, rest) => (some power, rest)
  | t => some (none, t)

/-- A number. Without a fraction and an exponent it is an integer, except for minus zero. -/
def readNumber (t : Text) : Option (JsonNumber × Text) := do
  let (negative, t) := readSign t
  let (whole, t) ← readWhole t
  let (fraction, t) ← readFraction t
  let (exponent, t) ← readExponent t
  let size : Int := Text.digitsValue (whole ++ fraction)
  let mantissa := if negative then -size else size
  match fraction, exponent with
  | [], none =>
    if negative && size == 0 then some (.decimal 0 0, t) else some (.integer mantissa, t)
  | _, _ => some (.decimal mantissa (exponent.getD 0 - fraction.length), t)

/-- How deeply arrays and objects may stand inside each other. -/
def maxDepth : Nat := 127

mutual

/-- A value at the start of a text, blanks before it allowed. `fuel` bounds the number of values
and separators still to read, `depth` the brackets still to open. -/
def readValue : (fuel depth : Nat) → Text → Option (Json × Text)
  | 0, _, _ => none
  | fuel + 1, depth, t =>
    match skipBlanks t with
    | 'n' :: 'u' :: 'l' :: 'l' :: rest => some (.null, rest)
    | 't' :: 'r' :: 'u' :: 'e' :: rest => some (.bool true, rest)
    | 'f' :: 'a' :: 'l' :: 's' :: 'e' :: rest => some (.bool false, rest)
    | '"' :: rest => (readChars rest).map fun (chars, rest) => (.string (String.ofList chars), rest)
    | '[' :: rest =>
      match depth, skipBlanks rest with
      | 0, _ => none
      | _ + 1, ']' :: rest => some (.array [], rest)
      | depth + 1, rest => do
        let (items, rest) ← readItems fuel depth rest
        return (.array items, rest)
    | '{' :: rest =>
      match depth, skipBlanks rest with
      | 0, _ => none
      | _ + 1, '}' :: rest => some (.object [], rest)
      | depth + 1, rest => do
        let (fields, rest) ← readFields fuel depth rest
        return (.object fields, rest)
    | t => (readNumber t).map fun (n, rest) => (.number n, rest)

/-- The items of an array up to its closing bracket. -/
def readItems : (fuel depth : Nat) → Text → Option (List Json × Text)
  | 0, _, _ => none
  | fuel + 1, depth, t => do
    let (v, rest) ← readValue fuel depth t
    match skipBlanks rest with
    | ']' :: rest => return ([v], rest)
    | ',' :: rest =>
      let (items, rest) ← readItems fuel depth rest
      return (v :: items, rest)
    | _ => none

/-- The fields of an object up to its closing bracket. -/
def readFields : (fuel depth : Nat) → Text → Option (List (String × Json) × Text)
  | 0, _, _ => none
  | fuel + 1, depth, t =>
    match skipBlanks t with
    | '"' :: rest => do
      let (name, rest) ← readChars rest
      match skipBlanks rest with
      | ':' :: rest =>
        let (v, rest) ← readValue fuel depth rest
        match skipBlanks rest with
        | '}' :: rest => return ([(String.ofList name, v)], rest)
        | ',' :: rest =>
          let (fields, rest) ← readFields fuel depth rest
          return ((String.ofList name, v) :: fields, rest)
        | _ => none
      | _ => none
    | _ => none

end

/-- The value a text spells. Every value and separator takes a character, so the length of the
text bounds their number. -/
def read (t : Text) : Option Json := do
  let (v, rest) ← readValue (2 * t.length + 2) maxDepth t
  if (skipBlanks rest).isEmpty then some v else none

end Json

end DiagramLint
