import DiagramLint.Diff.Block

/-!
A shortest way from one list of lines to another, by divide and conquer: lines in common at both
ends stay, and what is left is split where two searches, one from each end, meet.

A point of the search is a number of old and a number of new lines that are done; a diagonal `k`
holds the points with `k` more old lines than new ones. Each search keeps, for every diagonal, how
many old lines are done at the furthest point that it reached there.
-/

namespace DiagramLint.Diff

/-- The furthest points of a search, by diagonal. -/
structure Frontier where
  /-- The place of diagonal 0. -/
  centre : Nat
  reached : Array Nat

namespace Frontier

/-- No point yet, with room for the diagonals up to `n` on both sides. -/
def empty (n : Nat) : Frontier := ⟨n + 1, Array.replicate (2 * n + 3) 0⟩

/-- The old lines done on a diagonal. -/
def get (f : Frontier) (k : Int) : Nat := f.reached.getD (k + f.centre).toNat 0

/-- The frontier with another point on a diagonal. -/
def set (f : Frontier) (k : Int) (x : Nat) : Frontier :=
  { f with reached := f.reached.setIfInBounds (k + f.centre).toNat x }

/-- The old lines done on a diagonal after one more deletion or insertion, the `d`-th: coming from
the neighbour that got further, on a tie by a deletion. -/
def advance (f : Frontier) (d : Nat) (k : Int) : Nat :=
  if k = -d ∨ (k ≠ d ∧ f.get (k - 1) < f.get (k + 1)) then f.get (k + 1) else f.get (k - 1) + 1

end Frontier

/-- A number of old and of new lines. -/
abbrev Point := Nat × Nat

/-- The two searches. -/
structure Search where
  forward : Frontier
  backward : Frontier

/-- The diagonals that `d` deletions and insertions can lead to, from the deletions down. -/
def diagonals (d : Nat) : List Int := (List.range (d + 1)).map fun (i : Nat) => (d : Int) - 2 * i

section

variable [DecidableEq α] (old new : List α)

/-- The difference of the lengths, which is the diagonal of the last point. -/
def lastDiagonal : Int := (old.length : Int) - new.length

/-- One diagonal of the search from the start. An error is the point where it met the other
search: that from which its last run of equal lines starts. -/
def stepForward (d : Nat) (s : Search) (k : Int) : Except Point Search :=
  let x := s.forward.advance d k
  let y := ((x : Int) - k).toNat
  let reached := x + commonStart (old.drop x) (new.drop y)
  let delta := lastDiagonal old new
  if delta % 2 = 1 ∧ (k - delta).natAbs + 1 ≤ d
      ∧ old.length ≤ reached + s.backward.get (delta - k) then .error (x, y)
  else .ok { s with forward := s.forward.set k reached }

/-- One diagonal of the search from the end, in which lines are counted from there. -/
def stepBackward (d : Nat) (s : Search) (k : Int) : Except Point Search :=
  let x := s.backward.advance d k
  let y := ((x : Int) - k).toNat
  let run := commonStart (old.reverse.drop x) (new.reverse.drop y)
  let delta := lastDiagonal old new
  if delta % 2 = 0 ∧ (k - delta).natAbs ≤ d
      ∧ old.length ≤ x + run + s.forward.get (delta - k) then
    .error (old.length - (x + run), new.length - (y + run))
  else .ok { s with backward := s.backward.set k (x + run) }

/-- Both searches with `d` deletions and insertions each. -/
def stepBoth (s : Search) (d : Nat) : Except Point Search := do
  let s ← (diagonals d).foldlM (stepForward old new d) s
  (diagonals d).foldlM (stepBackward old new d) s

/-- The point where the two searches meet. Half of all lines is as far as each can go. -/
def middle? : Option Point :=
  let bound := (old.length + new.length + 1) / 2 + 1
  let start : Search := ⟨.empty bound, .empty bound⟩
  match (List.range bound).foldlM (stepBoth old new) start with
  | .error point => some point
  | .ok _ => none

end

theorem length_take_drop_le (l : List α) (start count : Nat) :
    ((l.drop start).take count).length ≤ l.length := by
  rw [List.length_take, List.length_drop]
  omega

/-- The blocks that lead from `old` to `new`, whose first lines are the lines `i` and `j` of the
whole versions. -/
def script [DecidableEq α] (i j : Nat) (old new : List α) : List Block :=
  let start := commonStart old new
  let stop := commonEnd (old.drop start) (new.drop start)
  let oldCore := (old.drop start).take (old.length - start - stop)
  let newCore := (new.drop start).take (new.length - start - stop)
  let core :=
    if oldCore.isEmpty ∧ newCore.isEmpty then []
    else if newCore.isEmpty then [Block.delete (i + start) oldCore.length (j + start)]
    else if oldCore.isEmpty then [Block.insert (i + start) (j + start) newCore.length]
    else
      let whole := [Block.delete (i + start) oldCore.length (j + start),
        Block.insert (i + start) (j + start) newCore.length]
      match middle? oldCore newCore with
      | none => whole
      | some (x, y) =>
        if _ : x ≤ oldCore.length ∧ y ≤ newCore.length ∧ 0 < x + y
            ∧ x + y < oldCore.length + newCore.length then
          script (i + start) (j + start) (oldCore.take x) (newCore.take y)
          ++ script (i + start + x) (j + start + y) (oldCore.drop x) (newCore.drop y)
        else whole
  (if start = 0 then [] else [Block.equal i j start]) ++ core
  ++ (if stop = 0 then []
      else [Block.equal (i + start + oldCore.length) (j + start + newCore.length) stop])
termination_by old.length + new.length
decreasing_by
  all_goals
    have hold : oldCore.length ≤ old.length := length_take_drop_le old _ _
    have hnew : newCore.length ≤ new.length := length_take_drop_le new _ _
    simp only [List.length_take, List.length_drop]
    omega

end DiagramLint.Diff
