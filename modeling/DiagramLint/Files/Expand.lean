import DiagramLint.Files.Tree

/-!
Path patterns: a path in which `?`, `*` and `[…]` stand for characters of a name and `**` for any
number of directories, and the files of a tree that it leads to.
-/

namespace DiagramLint

/-- A piece of the pattern of a name. -/
inductive NamePiece where
  | char (c : Char)
  /-- One character. -/
  | any
  /-- Any characters. -/
  | many
  /-- Any directories. -/
  | directories
  /-- One character of some ranges, or one of no range. -/
  | oneOf (negated : Bool) (ranges : List (Char × Char))
  deriving DecidableEq, Repr

/-- What can be wrong with a path pattern, and at which character. -/
inductive PathPatternError where
  | wildcards (index : Nat)
  | recursion (index : Nat)
  | range (index : Nat)
  deriving DecidableEq, Repr

namespace PathPatternError

/-- The wording of a path pattern error. -/
def message (e : PathPatternError) : String :=
  let (index, reason) := match e with
    | wildcards i => (i, "wildcards are either regular `*` or recursive `**`")
    | recursion i => (i, "recursive wildcards must form a single path component")
    | range i => (i, "invalid range pattern")
  "Pattern syntax error near position " ++ toString index ++ ": " ++ reason

end PathPatternError

/-- The pattern of a name. -/
abbrev NamePattern := List NamePiece

namespace NamePattern

/-! ## Reading -/

/-- The ranges that the characters of a class spell. -/
def ranges : Text → List (Char × Char)
  | a :: '-' :: b :: rest => (a, b) :: ranges rest
  | a :: rest => (a, a) :: ranges rest
  | [] => []

/-- The class at an opening bracket: its piece and its length. Its first character may be a
closing bracket. -/
def readClass? (t : Text) : Option (NamePiece × Nat) :=
  let negated := (t.drop 1).head? == some '!'
  let skipped := if negated then 2 else 1
  match t.drop skipped with
  | [] => none
  | first :: rest =>
    let inner := rest.takeWhile (· != ']')
    if inner.length < rest.length then
      some (.oneOf negated (ranges (first :: inner)), skipped + inner.length + 2)
    else none

/-- Read a pattern from the character with index `i` on, behind `previous`. -/
def readFrom (i : Nat) (previous : Option Char) (t : Text) :
    Except PathPatternError NamePattern :=
  match t with
  | [] => .ok []
  | '*' :: rest =>
    match (rest.takeWhile (· == '*')).length with
    | 0 => (readFrom (i + 1) (some '*') rest).map (.many :: ·)
    | 1 =>
      if previous.all (· == '/') then
        match rest.drop 1 with
        | [] => .ok [.directories]
        | c :: _ =>
          if c = '/' then (readFrom (i + 3) (some '/') (rest.drop 2)).map (.directories :: ·)
          else .error (.recursion (i + 2))
      else .error (.recursion (i - 1))
    | _ => .error (.wildcards (i + 2))
  | '?' :: rest => (readFrom (i + 1) (some '?') rest).map (.any :: ·)
  | '[' :: rest =>
    match readClass? ('[' :: rest) with
    | some (piece, length) =>
      (readFrom (i + length) (some ']') (rest.drop (length - 1))).map (piece :: ·)
    | none => .error (.range i)
  | c :: rest => (readFrom (i + 1) (some c) rest).map (.char c :: ·)
termination_by t.length
decreasing_by
  all_goals simp only [List.length_cons, List.length_drop]
  all_goals omega

/-- Read a pattern. -/
def parse (t : Text) : Except PathPatternError NamePattern := readFrom 0 none t

/-! ## Matching -/

/-- Whether a piece matches one character. -/
def matchesChar : NamePiece → Char → Bool
  | .char c, d => c == d
  | .any, _ => true
  | .oneOf negated ranges, d => ranges.any (fun r => r.1 ≤ d && d ≤ r.2) != negated
  | .many, _ | .directories, _ => false

/-- Whether a pattern matches a name. -/
def isMatch : NamePattern → Text → Bool
  | [], [] => true
  | [], _ :: _ => false
  | .many :: pieces, [] => isMatch pieces []
  | .many :: pieces, c :: rest => isMatch pieces (c :: rest) || isMatch (.many :: pieces) rest
  | _ :: _, [] => false
  | p :: pieces, c :: rest => matchesChar p c && isMatch pieces rest
termination_by pieces t => (pieces.length, t.length)

/-- The name that a pattern without special pieces spells. -/
def literal? (pattern : NamePattern) : Option String :=
  (pattern.mapM fun p => match p with
    | NamePiece.char c => some c
    | _ => none).map String.ofList

end NamePattern

/-! ## Expanding -/

/-- A place reached in a tree, and the path by which it is named. -/
structure Reached where
  path : String
  place : Location

namespace Reached

/-- The path of something inside; names in the working directory have no directory in front. -/
def inside (r : Reached) (names : List String) : Reached :=
  let start := if Path.parts r.path == [.here] then "" else r.path
  ⟨names.foldl Path.join start, r.place ++ names⟩

end Reached

namespace FileTree

/-- The file reached, if it is one. -/
def onlyFile (tree : FileTree) (r : Reached) : List String :=
  if (tree.content? r.place).isSome then [r.path] else []

/-- The place that a name without special pieces leads to. -/
def descend (tree : FileTree) (r : Reached) (name : String) : Option Reached :=
  let start := if Path.parts r.path == [.here] then "" else r.path
  (tree.follow r.place [name]).map fun place => ⟨Path.join start name, place⟩

/-- The files that the rest of a pattern leads to from a place. A name without special pieces is
looked up; other patterns are matched with every name in the directory, and behind `**` with every
name below it. -/
def expandFrom (tree : FileTree) : List NamePattern → Reached → List String
  | [], _ => []
  | [.directories] :: [], _ => []
  | [.directories] :: next :: rest, r =>
    if !tree.isDirectoryAt r.place then []
    else
      (tree.below r.place).flatMap fun names =>
        if next.isMatch (names.getLastD "").toList then
          if rest.isEmpty then tree.onlyFile (r.inside names)
          else expandFrom tree rest (r.inside names)
        else []
  | pattern :: rest, r =>
    match pattern.literal? with
    | some name =>
      match tree.descend r name with
      | none => []
      | some next => if rest.isEmpty then tree.onlyFile next else expandFrom tree rest next
    | none =>
      if !tree.isDirectoryAt r.place then []
      else
        (tree.children r.place).flatMap fun name =>
          if pattern.isMatch name.toList then
            if rest.isEmpty then tree.onlyFile (r.inside [name])
            else expandFrom tree rest (r.inside [name])
          else []

/-- Several `**` in a row are one. -/
def collapse : List NamePattern → List NamePattern
  | [.directories] :: [.directories] :: rest => collapse ([.directories] :: rest)
  | pattern :: rest => pattern :: collapse rest
  | [] => []

/-- The pieces of a pattern between its slashes; a slash at the end adds none, nor do those that
make it absolute. -/
def patternPieces (pattern : String) : List String :=
  let pieces := Path.pieces pattern
  let inner := if Path.isAbsolute pattern then pieces.dropWhile (· == "") else pieces
  if inner.getLast? = some "" then inner.dropLast else inner

/-- Where a pattern starts. -/
def patternStart (tree : FileTree) (pattern : String) : Reached :=
  ⟨if Path.isAbsolute pattern then "/" else ".", tree.start pattern⟩

/-- The files that a path pattern leads to. A pattern that ends with a slash names directories
only. -/
def expand (tree : FileTree) (pattern : String) : Except PathPatternError (List String) := do
  let _ ← NamePattern.parse pattern.toList
  let names ← (patternPieces pattern).mapM fun piece => NamePattern.parse piece.toList
  if pattern.toList.getLast? = some '/' then return []
  else return tree.expandFrom (collapse names) (tree.patternStart pattern)

end FileTree

end DiagramLint
