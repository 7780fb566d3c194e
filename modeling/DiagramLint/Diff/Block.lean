import DiagramLint.Text.Basic

/-!
Two versions of a text as lines, and the blocks that lead from one to the other.
-/

namespace DiagramLint.Diff

/-! ## Lines -/

/-- The lines of a text with their terminators: a line feed, a carriage return, or both in this
order. What stands behind the last terminator is a line if it is not empty. -/
def splitLines : Text → List Text
  | [] => []
  | '\r' :: '\n' :: rest => ['\r', '\n'] :: splitLines rest
  | c :: rest =>
    if c = '\n' ∨ c = '\r' then [c] :: splitLines rest
    else
      match splitLines rest with
      | [] => [[c]]
      | line :: lines => (c :: line) :: lines

/-- Whether a line has a terminator. -/
def isTerminated (line : Text) : Bool :=
  match line.getLast? with
  | some c => c == '\n' || c == '\r'
  | none => false

/-- How many items two lists have in common at their starts. -/
def commonStart [DecidableEq α] : List α → List α → Nat
  | a :: as, b :: bs => if a = b then commonStart as bs + 1 else 0
  | _, _ => 0

/-- How many items two lists have in common at their ends. -/
def commonEnd [DecidableEq α] (a b : List α) : Nat := commonStart a.reverse b.reverse

/-! ## Blocks -/

/-- What happens to the lines of a block. -/
inductive BlockKind where
  | equal
  | delete
  | insert
  /-- Lines are deleted and others inserted. -/
  | replace
  deriving DecidableEq, Repr

/-- Some lines of the old version and what stands for them in the new one. Lines are counted from
0, and a version without lines in the block still says where the block stands in it. -/
structure Block where
  kind : BlockKind
  oldStart : Nat
  oldLength : Nat
  newStart : Nat
  newLength : Nat
  deriving DecidableEq, Repr

namespace Block

/-- Lines that stay. -/
def equal (oldStart newStart length : Nat) : Block := ⟨.equal, oldStart, length, newStart, length⟩

/-- Lines that go. -/
def delete (oldStart oldLength newStart : Nat) : Block := ⟨.delete, oldStart, oldLength, newStart, 0⟩

/-- Lines that come. -/
def insert (oldStart newStart newLength : Nat) : Block := ⟨.insert, oldStart, 0, newStart, newLength⟩

/-- The line of the old version behind the block. -/
def oldStop (b : Block) : Nat := b.oldStart + b.oldLength

/-- The line of the new version behind the block. -/
def newStop (b : Block) : Nat := b.newStart + b.newLength

/-- The number of lines in the longer version. -/
def size (b : Block) : Nat := max b.oldLength b.newLength

/-- The lines of the old version in the block. -/
def oldLines (b : Block) (old : List Text) : List Text := (old.drop b.oldStart).take b.oldLength

/-- The lines of the new version in the block. -/
def newLines (b : Block) (new : List Text) : List Text := (new.drop b.newStart).take b.newLength

/-- The block `n` lines further up. -/
def shiftUp (b : Block) (n : Nat) : Block :=
  { b with oldStart := b.oldStart - n, newStart := b.newStart - n }

/-- The block `n` lines further down. -/
def shiftDown (b : Block) (n : Nat) : Block :=
  { b with oldStart := b.oldStart + n, newStart := b.newStart + n }

/-- A block of lines that stay, with `n` more at its start. -/
def growUp (b : Block) (n : Nat) : Block :=
  equal (b.oldStart - n) (b.newStart - n) (b.oldLength + n)

/-- A block of lines that stay, with `n` more at its end. -/
def growDown (b : Block) (n : Nat) : Block := equal b.oldStart b.newStart (b.oldLength + n)

/-- A block of lines that stay, without the `n` at its end. -/
def shrinkDown (b : Block) (n : Nat) : Block := equal b.oldStart b.newStart (b.oldLength - n)

/-- A block of lines that stay, without the `n` at its start. -/
def shrinkUp (b : Block) (n : Nat) : Block :=
  equal (b.oldStart + n) (b.newStart + n) (b.oldLength - n)

/-- The block together with the lines of another one of its kind behind it. -/
def join (b next : Block) : Block :=
  { b with oldLength := b.oldLength + next.oldLength, newLength := b.newLength + next.newLength }

end Block

end DiagramLint.Diff
