import DiagramLint.Text.Basic

/-!
Decimal numbers rounded to the binary floating point numbers of 64 bits: to the nearest, a tie to
the even one, beyond the largest to infinity. A number is kept as its sign and the bits of its
magnitude, which are in the order of the magnitudes.
-/

namespace DiagramLint

/-- A binary floating point number: its sign and the 63 bits below it. -/
structure Binary64 where
  negative : Bool
  magnitude : Nat
  deriving DecidableEq, Repr

namespace Binary64

/-- The magnitude bits of infinity. -/
def infinity : Nat := 0x7ff * Nat.pow 2 52

/-- The magnitude bits of what is not a number; they are above those of infinity. -/
def notANumber : Nat := infinity + Nat.pow 2 51

/-- A quotient rounded to the nearest natural number, a tie to the even one. -/
def roundDiv (num den : Nat) : Nat :=
  let quotient := num / den
  let twice := 2 * (num % den)
  if den < twice ∨ (twice = den ∧ quotient % 2 = 1) then quotient + 1 else quotient

/-- `num / den` divided by `2 ^ exponent` and rounded. -/
def scaled (num den : Nat) (exponent : Int) : Nat :=
  if 0 ≤ exponent then roundDiv num (den * Nat.pow 2 exponent.toNat)
  else roundDiv (num * Nat.pow 2 (-exponent).toNat) den

/-- The exponent of the last place of the number nearest to `num / den`: 53 binary places, as long
as the smallest exponent allows them. The first guess, from the lengths of both numbers, is at
most one too small. -/
def lastPlace (num den : Nat) : Int :=
  let guess : Int := (num.log2 : Int) - den.log2 - 53
  let fits (e : Int) : Bool :=
    if 0 ≤ e then num < den * Nat.pow 2 (e.toNat + 53)
    else num * Nat.pow 2 (-e).toNat < den * Nat.pow 2 53
  max (-1074) (if fits guess then guess else guess + 1)

/-- The magnitude bits of the number nearest to `num / den`. A significand that rounds up to the
next power of two carries into the exponent, as it should. -/
def nearest (num den : Nat) : Nat :=
  if num = 0 then 0
  else
    let exponent := lastPlace num den
    min infinity ((exponent + 1074).toNat * Nat.pow 2 52 + scaled num den exponent)

/-- The number nearest to `digits / 10 ^ places`, with a sign. -/
def ofDecimal (negative : Bool) (digits : Nat) (places : Int) : Binary64 :=
  ⟨negative, nearest (digits * Nat.pow 10 (-places).toNat) (Nat.pow 10 places.toNat)⟩

/-- Whether the number is zero, of either sign. -/
def isZero (x : Binary64) : Bool := x.magnitude == 0

/-- Whether the number lies below zero. -/
def isBelowZero (x : Binary64) : Bool :=
  x.negative && x.magnitude != 0 && x.magnitude ≤ infinity

/-- The 64 bits of the number. -/
def bits (x : Binary64) : Nat := (if x.negative then Nat.pow 2 63 else 0) + x.magnitude

/-! ## Written numbers -/

/-- Whether a text starts with a minus sign, and what stands behind its sign. -/
def readSign : Text → Bool × Text
  | '-' :: rest => (true, rest)
  | '+' :: rest => (false, rest)
  | t => (false, t)

/-- Decimal digits with a point anywhere among them or none: the digits before it, those behind it,
and what is left. -/
def readDigits (t : Text) : Text × Text × Text :=
  let whole := t.takeWhile Char.isDigit
  match t.drop whole.length with
  | '.' :: rest => (whole, rest.takeWhile Char.isDigit, rest.dropWhile Char.isDigit)
  | rest => (whole, [], rest)

/-- The power of ten that a text stands for: an `e`, in either case, with digits that may have a
sign. Without a text it is zero. -/
def power? : Text → Option Int
  | [] => some 0
  | c :: rest =>
    let (negative, digits) := readSign rest
    if (c != 'e' && c != 'E') || digits.isEmpty || !digits.all Char.isDigit then none
    else some (if negative then -Text.digitsValue digits else Text.digitsValue digits)

/-- The number that a text spells: behind an optional sign, decimal digits with an optional point
and power of ten, or one of the names of what is no finite number, in any case. -/
def ofText? (t : Text) : Option Binary64 :=
  let (negative, t) := readSign t
  let name := t.map Char.toLower
  if name = "inf".toList ∨ name = "infinity".toList then some ⟨negative, infinity⟩
  else if name = "nan".toList then some ⟨negative, notANumber⟩
  else
    let (whole, fraction, rest) := readDigits t
    if whole.isEmpty && fraction.isEmpty then none
    else
      (power? rest).map fun power =>
        ofDecimal negative (Text.digitsValue (whole ++ fraction)) (fraction.length - power)

/-! ## Fixed places -/

/-- The significand of a finite number. -/
def significand (x : Binary64) : Nat :=
  if x.magnitude < Nat.pow 2 52 then x.magnitude else Nat.pow 2 52 + x.magnitude % Nat.pow 2 52

/-- The exponent that goes with the significand. -/
def exponent (x : Binary64) : Int := max 1 (x.magnitude / Nat.pow 2 52 : Nat) - 1075

/-- The magnitude of a finite number in units of `10 ^ (-places)`, rounded to the nearest one, a
tie to the even one. -/
def unitsAt (places : Nat) (x : Binary64) : Nat :=
  scaled (x.significand * Nat.pow 10 places) 1 (-x.exponent)

/-- The magnitude of a finite number with a number of decimal places. -/
def fixed (places : Nat) (x : Binary64) : String :=
  let units := x.unitsAt places
  let digits := Nat.toDigits 10 (units % Nat.pow 10 places)
  toString (units / Nat.pow 10 places) ++ "."
    ++ String.ofList (List.replicate (places - digits.length) '0' ++ digits)

example : (ofDecimal false 425 1).bits = 0x4045400000000000 := by decide
example : (ofDecimal false 1 1).bits = 0x3fb999999999999a := by decide
example : (ofDecimal true 0 0).bits = 0x8000000000000000 := by decide
example : (ofDecimal false 125 3).unitsAt 2 = 12 := by decide
example : (ofDecimal false 1005 3).unitsAt 2 = 100 := by decide
example : (ofDecimal false 5 3).unitsAt 2 = 1 := by decide
example : (ofText? "-0.5e1".toList).map bits = some 0xc014000000000000 := by decide
example : ["", "-", ".", "abc", "1e", "1.2.3"].map (ofText? ·.toList) = List.replicate 6 none := by
  decide

end Binary64

end DiagramLint
