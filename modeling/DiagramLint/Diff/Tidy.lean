import DiagramLint.Diff.Block

/-!
Tidying blocks: deletions and insertions are moved up and then down as far as the lines around
them allow, and those that meet become one. A deletion and an insertion next to each other are a
replacement in the end.
-/

namespace DiagramLint.Diff

/-- A block that is being moved, with the blocks above it, the nearest first, and those below. -/
structure Moving where
  above : List Block
  block : Block
  below : List Block

/-- What a list of blocks weighs: every block and every line counts one. -/
def weight (blocks : List Block) : Nat := blocks.foldr (fun b n => b.size + 1 + n) 0

/-- The first block with `n` lines that stay added at its start, or a new block of them. -/
def addStaying (staying : Block) : List Block → List Block
  | b :: rest =>
    if b.kind = .equal then b.growUp staying.oldLength :: rest else staying :: b :: rest
  | [] => [staying]

/-- The nearest block above with lines that stay added at its end, or a new block of them. -/
def addStayingAbove (staying : Block) : List Block → List Block
  | b :: rest =>
    if b.kind = .equal then b.growDown staying.oldLength :: rest else staying :: b :: rest
  | [] => [staying]

/-- Blocks without the first one if that holds no lines. -/
def dropEmpty : List Block → List Block
  | b :: rest => if b.size = 0 then rest else b :: rest
  | [] => []

section

variable (old new : List Text)

/-- How many lines a block can move up into one of lines that stay. Only insertions move. -/
def roomAbove (block staying : Block) : Nat :=
  if block.kind = .insert then commonEnd (staying.oldLines old) (block.newLines new) else 0

/-- How many lines a block can move down into one of lines that stay. -/
def roomBelow (block staying : Block) : Nat :=
  if block.kind = .insert then commonStart (staying.oldLines old) (block.newLines new) else 0

/-- Move a block up as far as it goes: through lines that stay as long as they agree with its
own, past a block of the other kind, into one of its own kind. `fuel` bounds the moves. -/
def moveUp : (fuel : Nat) → Moving → Moving
  | 0, m => m
  | fuel + 1, m =>
    match m.above with
    | [] => m
    | b :: above =>
      if b.kind = .equal then
        let n := roomAbove old new m.block b
        if 0 < n then
          let staying := Block.equal (b.oldStop - n) (m.block.newStop - n) n
          moveUp fuel ⟨dropEmpty (b.shrinkDown n :: above), m.block.shiftUp n,
            addStaying staying m.below⟩
        else if b.size = 0 then moveUp fuel { m with above }
        else m
      else if b.kind = m.block.kind then moveUp fuel ⟨above, b.join m.block, m.below⟩
      else moveUp fuel ⟨above, m.block, b :: m.below⟩

/-- Move a block down as far as it goes. -/
def moveDown : (fuel : Nat) → Moving → Moving
  | 0, m => m
  | fuel + 1, m =>
    match m.below with
    | [] => m
    | b :: below =>
      if b.kind = .equal then
        let n := roomBelow old new m.block b
        if 0 < n then
          let staying := Block.equal b.oldStart m.block.newStart n
          moveDown fuel ⟨addStayingAbove staying m.above, m.block.shiftDown n,
            dropEmpty (b.shrinkUp n :: below)⟩
        else if b.size = 0 then moveDown fuel { m with below }
        else m
      else if b.kind = m.block.kind then moveDown fuel ⟨m.above, m.block.join b, below⟩
      else moveDown fuel ⟨b :: m.above, m.block, below⟩

/-- Move every block of a kind, from the first on; `above` holds the blocks that are done, the
last one first. -/
def moveAll (kind : BlockKind) : (fuel : Nat) → (above below : List Block) → List Block
  | 0, above, below => above.reverse ++ below
  | _, above, [] => above.reverse
  | fuel + 1, above, b :: below =>
    if b.kind = kind then
      let up := moveUp old new (weight above + 1) ⟨above, b, below⟩
      let down := moveDown old new (weight up.below + 1) up
      moveAll kind fuel (down.block :: down.above) down.below
    else moveAll kind fuel (b :: above) below

/-- Move the deletions, then the insertions. -/
def moved (blocks : List Block) : List Block :=
  let fuel := (weight blocks + 1) * 2
  moveAll old new .insert fuel [] (moveAll old new .delete fuel [] blocks)

end

/-- One block for two neighbours that both change something. Old lines start where the first of
them loses lines, and new ones where the first gains some. -/
def joinChanges (a b : Block) : Block :=
  let oldLength := a.oldLength + b.oldLength
  let newLength := a.newLength + b.newLength
  { kind := if oldLength = 0 then .insert else if newLength = 0 then .delete else .replace
    oldStart := if a.oldLength = 0 ∧ 0 < b.oldLength then b.oldStart else a.oldStart
    oldLength
    newStart := if a.newLength = 0 ∧ 0 < b.newLength then b.newStart else a.newStart
    newLength }

/-- Join neighbours: lines that stay with lines that stay, changes with changes. -/
def joinNeighbours : List Block → List Block
  | [] => []
  | a :: rest =>
    match joinNeighbours rest with
    | [] => [a]
    | b :: more =>
      if a.kind = .equal ∧ b.kind = .equal then a.join b :: more
      else if a.kind = .equal ∨ b.kind = .equal then a :: b :: more
      else joinChanges a b :: more

/-- The tidied blocks. -/
def tidy (old new : List Text) (blocks : List Block) : List Block :=
  joinNeighbours (moved old new blocks)

end DiagramLint.Diff
