import DiagramLint.Diff.Shortest
import DiagramLint.Diff.Tidy

/-!
Unified diffs: the changes between two versions of a file in hunks, each with a few lines around
it that stay.
-/

namespace DiagramLint.Diff

/-- How many lines that stay are shown around a change. -/
def context : Nat := 3

/-- The blocks from one list of lines to another. -/
def blocks (old new : List Text) : List Block := tidy old new (script 0 0 old new)

/-! ## Hunks -/

/-- The last lines of a block of lines that stay, as many as the context has. -/
def contextBefore (b : Block) : Block :=
  if b.kind = .equal then b.shrinkUp (b.oldLength - context) else b

/-- The first lines of a block of lines that stay. -/
def contextAfter (b : Block) : Block :=
  if b.kind = .equal then b.shrinkDown (b.oldLength - context) else b

/-- The blocks with only the context of the first and the last change. -/
def trimmed (blocks : List Block) : List Block :=
  (blocks.modifyHead contextBefore).reverse.modifyHead contextAfter |>.reverse

/-- The groups of blocks between which more lines stay than two contexts hold; `group` holds the
blocks of the current one, the last one first. -/
def groupsFrom (group : List Block) : List Block → List (List Block)
  | [] => [group.reverse]
  | b :: rest =>
    if b.kind = .equal ∧ 2 * context < b.oldLength then
      (contextAfter b :: group).reverse :: groupsFrom [contextBefore b] rest
    else groupsFrom (b :: group) rest

/-- The hunks: the groups of blocks in which something changes. -/
def hunks (blocks : List Block) : List (List Block) :=
  (groupsFrom [] (trimmed blocks)).filter fun group => group.any (·.kind != .equal)

/-! ## Text -/

/-- Some lines behind a sign; a line without a terminator is marked. -/
def signed (sign : Char) (lines : List Text) : Text :=
  lines.flatMap fun line =>
    sign :: line ++ (if isTerminated line then [] else "\n\\ No newline at end of file\n".toList)

/-- The lines of a block, those that go before those that come. -/
def renderBlock (old new : List Text) (b : Block) : Text :=
  match b.kind with
  | .equal => signed ' ' (b.oldLines old)
  | .delete => signed '-' (b.oldLines old)
  | .insert => signed '+' (b.newLines new)
  | .replace => signed '-' (b.oldLines old) ++ signed '+' (b.newLines new)

/-- A range of lines, counted from 1: its first line and its length, which is left out for one
line. A range without lines gives the line before it. -/
def renderRange (start stop : Nat) : String :=
  let length := stop - start
  if length = 1 then toString (start + 1)
  else toString (if length = 0 then start else start + 1) ++ "," ++ toString length

/-- A hunk behind the ranges that it covers in both versions. -/
def renderHunk (old new : List Text) (hunk : List Block) : Text :=
  match hunk.head?, hunk.getLast? with
  | some first, some last =>
    ("@@ -" ++ renderRange first.oldStart last.oldStop ++ " +"
      ++ renderRange first.newStart last.newStop ++ " @@\n").toList
    ++ hunk.flatMap (renderBlock old new)
  | _, _ => []

/-- The unified diff between two versions of a file with a name; empty when they are equal. -/
def unified (name : String) (before after : Text) : Text :=
  let old := splitLines before
  let new := splitLines after
  match hunks (blocks old new) with
  | [] => []
  | hunks =>
    ("--- a/" ++ name ++ "\n+++ b/" ++ name ++ "\n").toList ++ hunks.flatMap (renderHunk old new)

end DiagramLint.Diff
