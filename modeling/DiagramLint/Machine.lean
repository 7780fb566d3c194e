/-!
What the machine adds to the program: numbers of 64 bits, and computations that end without a
result.
-/

namespace DiagramLint

/-- How a computation fails to give a result. -/
inductive Fault where
  /-- A sum exceeds the largest number: the program stops. -/
  | overflow
  /-- A range ends outside its text: the program stops. -/
  | outside
  /-- A loop is back where it was: the program goes on for ever. -/
  | endless
  deriving DecidableEq, Repr

/-- The largest number of 64 bits. -/
def maxWord : Nat := UInt64.size - 1

/-- The sum of two numbers of 64 bits, with `held` characters in memory. A machine counts what it
holds, so a sum up to the place behind those characters is never too large. -/
def wordAdd (held a b : Nat) : Except Fault Nat :=
  if a + b ≤ max maxWord (held + 1) then .ok (a + b) else .error .overflow

/-- The difference of two numbers of 64 bits in a release build: below zero it goes on from the
largest one down. -/
def wordSub (a b : Nat) : Nat := if b ≤ a then a - b else a + UInt64.size - b

end DiagramLint
