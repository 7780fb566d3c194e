import DiagramLint.Text.Basic

/-!
Patterns for the files to include and exclude. `?` stands for one byte of a path and `*` for any
number of them, slashes too; `**` as a whole component stands for any number of components;
`[…]` is a class of bytes, `{…,…}` a choice between patterns, and a backslash takes away the
meaning of the next character. A pattern matches a path as a whole.
-/

namespace DiagramLint

/-- A piece of a pattern. -/
inductive PatternPiece where
  | literal (c : Char)
  /-- One byte. -/
  | any
  /-- Any bytes. -/
  | many
  /-- Components at the start: nothing, a slash, or anything up to a slash. -/
  | leadingDirs
  /-- A slash and anything behind it. -/
  | trailingDirs
  /-- Components in between: a slash, or anything between two slashes. -/
  | innerDirs
  /-- One byte of some character ranges, or one of no range. -/
  | oneOf (negated : Bool) (ranges : List (Char × Char))
  /-- One of several patterns. -/
  | choice (branches : List (List PatternPiece))
  deriving Repr

/-- What can be wrong with a pattern. -/
inductive PatternError where
  | unclosedClass
  | invalidRange (first last : Char)
  | unopenedChoice
  | unclosedChoice
  | danglingEscape
  deriving DecidableEq, Repr

namespace PatternError

/-- The wording of a pattern error. -/
def message : PatternError → String
  | unclosedClass => "unclosed character class; missing ']'"
  | invalidRange first last =>
    "invalid range; '" ++ String.singleton first ++ "' > '" ++ String.singleton last ++ "'"
  | unopenedChoice => "unopened alternate group; missing '\x7b' (maybe escape '\x7d' with '[\x7d]'?)"
  | unclosedChoice => "unclosed alternate group; missing '\x7d' (maybe escape '\x7b' with '[\x7b]'?)"
  | danglingEscape => "dangling '\\'"

end PatternError

namespace FilePattern

/-! ## Reading -/

/-- A choice being read: the pattern before it and its finished branches, the last one first.
Pieces are kept in reverse. -/
structure OpenChoice where
  before : List PatternPiece
  branches : List (List PatternPiece)

/-- What has been read: the pieces of the current branch, the last one first, and the choices it
stands in. -/
structure State where
  current : List PatternPiece := []
  choices : List OpenChoice := []

namespace State

/-- The state with a piece added. -/
def push (s : State) (p : PatternPiece) : State := { s with current := p :: s.current }

/-- Whether a choice is being read. -/
def inChoice (s : State) : Bool := !s.choices.isEmpty

/-- A choice begins. -/
def enter (s : State) : State := ⟨[], ⟨s.current, []⟩ :: s.choices⟩

/-- The next branch of a choice begins; outside a choice a comma stands for itself. -/
def comma (s : State) : State :=
  match s.choices with
  | [] => s.push (.literal ',')
  | c :: rest => ⟨[], { c with branches := s.current.reverse :: c.branches } :: rest⟩

/-- A choice ends. -/
def leave (s : State) : Except PatternError State :=
  match s.choices with
  | [] => .error .unopenedChoice
  | c :: rest => .ok ⟨.choice (s.current.reverse :: c.branches).reverse :: c.before, rest⟩

end State

/-- The ranges of a class up to its closing bracket, the last one first, and the rest. `first`
holds before any character was read, and `inRange` behind a dash that may form a range. -/
def readRanges (first inRange : Bool) (ranges : List (Char × Char)) :
    Text → Except PatternError (List (Char × Char) × Text)
  | [] => .error .unclosedClass
  | c :: rest =>
    if c = ']' ∧ !first then .ok (if inRange then ('-', '-') :: ranges else ranges, rest)
    else if c = '-' ∧ !first ∧ !inRange then readRanges false true ranges rest
    else
      match inRange, ranges with
      | true, (low, _) :: others =>
        if c < low then .error (.invalidRange low c)
        else readRanges false false ((low, c) :: others) rest
      | _, _ => readRanges false false ((c, c) :: ranges) rest

/-- Whether a class starts with a sign that negates it. -/
def isNegated : Text → Bool
  | '!' :: _ | '^' :: _ => true
  | _ => false

/-- A class after its opening bracket, and the rest. -/
def readClass (t : Text) : Except PatternError (PatternPiece × Text) :=
  match readRanges true false [] (t.drop (if isNegated t then 1 else 0)) with
  | .error e => .error e
  | .ok (ranges, rest) => .ok (.oneOf (isNegated t) ranges.reverse, rest)

theorem readRanges_length_lt {first inRange : Bool} {ranges out : List (Char × Char)}
    {t rest : Text} (h : readRanges first inRange ranges t = .ok (out, rest)) :
    rest.length < t.length := by
  fun_induction readRanges first inRange ranges t <;> simp_all <;> omega

theorem readClass_length_lt {t rest : Text} {p : PatternPiece}
    (h : readClass t = .ok (p, rest)) : rest.length < t.length := by
  unfold readClass at h
  split at h
  · cases h
  · rename_i heq
    cases h
    have := readRanges_length_lt heq
    simp only [List.length_drop] at this
    omega

/-- What two stars mean: behind `previous`, when `rest` follows them. They stand for components
only where they fill one; the slash behind them is then part of the piece. -/
def readStars (s : State) (previous : Option Char) (rest : Text) : State × Text :=
  let plain := ((s.push .many).push .many, rest)
  let boundary := rest.head?.all (· == '/')
  if s.current.isEmpty then
    if boundary then (s.push .leadingDirs, rest.drop 1) else plain
  else if previous != some '/' && !(s.inChoice && (previous == some ',' || previous == some '\x7b'))
  then plain
  else
    let closes := s.inChoice && (rest.head? == some ',' || rest.head? == some '\x7d')
    if !boundary && !closes then plain
    else
      let piece := match s.current with
        | .leadingDirs :: _ => PatternPiece.leadingDirs
        | .trailingDirs :: _ => .trailingDirs
        | _ => if rest.isEmpty || closes then .trailingDirs else .innerDirs
      ({ s with current := piece :: s.current.drop 1 }, if closes then rest else rest.drop 1)

theorem readStars_length_le (s : State) (previous : Option Char) (rest : Text) :
    (readStars s previous rest).2.length ≤ rest.length := by
  unfold readStars
  simp only
  repeat' split
  all_goals simp

/-- Read a pattern from some place on; `previous` is the character before. -/
def readFrom (s : State) (previous : Option Char) (t : Text) : Except PatternError State :=
  match t with
  | [] => .ok s
  | '?' :: rest => readFrom (s.push .any) (some '?') rest
  | '*' :: '*' :: rest =>
    let after := readStars s previous rest
    readFrom after.1 (if after.2.length < rest.length then some '/' else some '*') after.2
  | '*' :: rest => readFrom (s.push .many) (some '*') rest
  | '[' :: rest =>
    match _h : readClass rest with
    | .error e => .error e
    | .ok (piece, after) => readFrom (s.push piece) (some ']') after
  | '{' :: rest => readFrom s.enter (some '{') rest
  | '}' :: rest =>
    match s.leave with
    | .error e => .error e
    | .ok s => readFrom s (some '}') rest
  | ',' :: rest => readFrom s.comma (some ',') rest
  | ['\\'] => .error .danglingEscape
  | '\\' :: c :: rest => readFrom (s.push (.literal c)) (some c) rest
  | c :: rest => readFrom (s.push (.literal c)) (some c) rest
termination_by t.length
decreasing_by
  all_goals simp only [List.length_cons]
  all_goals first
    | exact Nat.lt_add_right 1 (readClass_length_lt _h)
    | exact Nat.lt_succ_of_le (Nat.le_succ_of_le (readStars_length_le s previous rest))
    | omega

end FilePattern

/-- A pattern for files. -/
structure FilePattern where
  pieces : List PatternPiece
  deriving Repr

namespace FilePattern

/-- Read a pattern. -/
def parse (pattern : String) : Except PatternError FilePattern := do
  let s ← readFrom {} none pattern.toList
  if s.inChoice then .error .unclosedChoice else .ok ⟨s.current.reverse⟩

/-! ## Matching -/

/-- The bytes of a path. -/
abbrev Bytes := List UInt8

/-- The bytes of a character. -/
def charBytes (c : Char) : Bytes := String.utf8EncodeChar c

/-- Whether a byte belongs to a range of characters. A range reaches from the last byte of its
first character to the first byte of its last one; the other bytes of both belong to it too. -/
def inRange (b : UInt8) (range : Char × Char) : Bool :=
  let first := charBytes range.1
  let last := charBytes range.2
  if range.1 = range.2 then first.contains b
  else
    first.contains b || last.contains b || (first.getLastD 0 ≤ b && b ≤ last.headD 0)

/-- What is left of some bytes behind any number of them: every tail. -/
def tails : Bytes → List Bytes
  | [] => [[]]
  | b :: rest => (b :: rest) :: tails rest

/-- What is left behind each slash. -/
def behindSlashes : Bytes → List Bytes
  | [] => []
  | b :: rest => if b = '/'.toUInt8 then rest :: behindSlashes rest else behindSlashes rest

mutual

/-- Whether a piece can only match nothing. -/
def isVoid : PatternPiece → Bool
  | .choice branches => branchesVoid branches
  | _ => false

/-- Whether every piece can only match nothing. -/
def allVoid : List PatternPiece → Bool
  | [] => true
  | p :: rest => isVoid p && allVoid rest

/-- Whether every branch can only match nothing. -/
def branchesVoid : List (List PatternPiece) → Bool
  | [] => true
  | branch :: rest => allVoid branch && branchesVoid rest

end

mutual

/-- What may be left of some bytes behind a piece. -/
def rests (p : PatternPiece) (bytes : Bytes) : List Bytes :=
  match p with
  | .literal c =>
    if (charBytes c).isPrefixOf bytes then [bytes.drop (charBytes c).length] else []
  | .any => if bytes.isEmpty then [] else [bytes.drop 1]
  | .many => tails bytes
  | .leadingDirs => bytes :: behindSlashes bytes
  | .trailingDirs =>
    if bytes.head? = some '/'.toUInt8 then tails (bytes.drop 1) else []
  | .innerDirs =>
    if bytes.head? = some '/'.toUInt8 then bytes.drop 1 :: behindSlashes (bytes.drop 1) else []
  | .oneOf negated ranges =>
    match bytes with
    | [] => []
    | b :: rest => if ranges.any (inRange b) != negated then [rest] else []
  | .choice branches => if branchesVoid branches then [bytes] else choiceRests branches bytes

/-- What may be left behind one branch of a choice; branches that match nothing do not count. -/
def choiceRests (branches : List (List PatternPiece)) (bytes : Bytes) : List Bytes :=
  match branches with
  | [] => []
  | branch :: others =>
    (if allVoid branch then [] else seqRests branch [bytes]) ++ choiceRests others bytes

/-- What may be left behind several pieces of some of these bytes. -/
def seqRests (pieces : List PatternPiece) (left : List Bytes) : List Bytes :=
  match pieces with
  | [] => left
  | p :: rest => seqRests rest (left.flatMap (rests p)).eraseDups

end

/-- Whether a pattern matches a path. Two stars alone match every path. -/
def isMatch (p : FilePattern) (path : String) : Bool :=
  match p.pieces with
  | [.leadingDirs] => true
  | pieces => (seqRests pieces [path.toList.flatMap charBytes]).any List.isEmpty

end FilePattern

end DiagramLint
