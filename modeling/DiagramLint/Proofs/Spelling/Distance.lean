-- The distance between words and the keyword nearest to one. The rows of the
-- distance table hold least numbers of changes from one beginning of the
-- first word to every beginning of the second, so the table ends with the
-- least number of changes that lead from word to word.
import Mathlib.Data.List.Induction
import Mathlib.Order.Bounds.Basic
import DiagramLint.Proofs.FirstLeast
import DiagramLint.Spelling

namespace DiagramLint

/-! ## Changes of a word -/

/-- One change of a word: a character is put in, left out or replaced. -/
inductive LetterChange : List Char → List Char → Prop where
  | insert (x y : List Char) (c : Char) : LetterChange (x ++ y) (x ++ c :: y)
  | delete (x y : List Char) (c : Char) : LetterChange (x ++ c :: y) (x ++ y)
  | replace (x y : List Char) (c d : Char) : LetterChange (x ++ c :: y) (x ++ d :: y)

/-- So many changes lead from one word to another. -/
inductive LetterChanges : Nat → List Char → List Char → Prop where
  | none {a : List Char} : LetterChanges 0 a a
  | more {n : Nat} {a b c : List Char} :
      LetterChange a b → LetterChanges n b c → LetterChanges (n + 1) a c

variable {a b w u : List Char} {n : Nat}

theorem LetterChange.cons (c : Char) (h : LetterChange a b) : LetterChange (c :: a) (c :: b) := by
  cases h with
  | insert x y d => exact .insert (c :: x) y d
  | delete x y d => exact .delete (c :: x) y d
  | replace x y d e => exact .replace (c :: x) y d e

theorem LetterChange.reverse (h : LetterChange a b) : LetterChange a.reverse b.reverse := by
  cases h with
  | insert x y c => simpa using LetterChange.insert y.reverse x.reverse c
  | delete x y c => simpa using LetterChange.delete y.reverse x.reverse c
  | replace x y c d => simpa using LetterChange.replace y.reverse x.reverse c d

namespace LetterChanges

theorem cons (c : Char) (h : LetterChanges n a b) : LetterChanges n (c :: a) (c :: b) := by
  induction h with
  | none => exact .none
  | more hone _ ih => exact .more (hone.cons c) ih

theorem reverse (h : LetterChanges n a b) : LetterChanges n a.reverse b.reverse := by
  induction h with
  | none => exact .none
  | more hone _ ih => exact .more hone.reverse ih

end LetterChanges

theorem letterChanges_reverse_iff :
    LetterChanges n a.reverse b.reverse ↔ LetterChanges n a b := by
  constructor
  · intro h
    simpa using h.reverse
  · exact LetterChanges.reverse

/-! ## The least number of changes -/

/-- The least number of changes from one word to another, by what becomes of their first
characters. -/
def leastChanges : List Char → List Char → Nat
  | [], b => b.length
  | c :: a, [] => (c :: a).length
  | c :: a, d :: b =>
    min (min (leastChanges a b + if c = d then 0 else 1) (leastChanges (c :: a) b + 1))
      (leastChanges a (d :: b) + 1)
termination_by a b => a.length + b.length

@[simp] theorem leastChanges_nil_left (b : List Char) : leastChanges [] b = b.length := by
  rw [leastChanges]

@[simp] theorem leastChanges_nil_right (a : List Char) : leastChanges a [] = a.length := by
  cases a with
  | nil => rw [leastChanges]
  | cons c a => rw [leastChanges]

theorem leastChanges_cons_cons (c d : Char) (a b : List Char) :
    leastChanges (c :: a) (d :: b) =
      min (min (leastChanges a b + if c = d then 0 else 1) (leastChanges (c :: a) b + 1))
        (leastChanges a (d :: b) + 1) := by
  rw [leastChanges]

theorem leastChanges_delete_le (c : Char) (a w : List Char) :
    leastChanges (c :: a) w ≤ leastChanges a w + 1 := by
  cases w with
  | nil => simp
  | cons d w =>
    rw [leastChanges_cons_cons]
    exact Nat.min_le_right _ _

theorem leastChanges_insert_le (d : Char) (a w : List Char) :
    leastChanges a (d :: w) ≤ leastChanges a w + 1 := by
  cases a with
  | nil => simp
  | cons c a =>
    rw [leastChanges_cons_cons]
    omega

/-- So many changes as are least do lead from one word to the other. -/
theorem letterChanges_leastChanges (a b : List Char) : LetterChanges (leastChanges a b) a b := by
  fun_induction leastChanges a b with
  | case1 b =>
    induction b with
    | nil => exact .none
    | cons d b ih => exact .more (.insert [] [] d) (ih.cons d)
  | case2 c a =>
    induction a generalizing c with
    | nil => exact .more (.delete [] [] c) .none
    | cons d a ih => exact .more (.delete [] (d :: a) c) (ih d)
  | case3 c a d b hboth hinsert hdelete =>
    -- the changes that the least entry counts come behind one at the start
    obtain h | h | h : leastChanges (c :: a) (d :: b) = leastChanges a b + (if c = d then 0 else 1) ∨
        leastChanges (c :: a) (d :: b) = leastChanges (c :: a) b + 1 ∨
        leastChanges (c :: a) (d :: b) = leastChanges a (d :: b) + 1 := by
      rw [leastChanges_cons_cons]
      omega
    all_goals rw [← leastChanges_cons_cons, h]
    · by_cases hcd : c = d
      · rw [if_pos hcd, hcd]
        exact hboth.cons d
      · rw [if_neg hcd]
        exact .more (.replace [] a c d) (hboth.cons d)
    · exact .more (.insert [] (c :: a) d) (hinsert.cons d)
    · exact .more (.delete [] a c) hdelete

/-! ### No fewer changes -/

theorem leastChanges_le_cons (c : Char) (a w : List Char) :
    leastChanges a w ≤ leastChanges (c :: a) w + 1 := by
  induction w with
  | nil =>
    rw [leastChanges_nil_right, leastChanges_nil_right, List.length_cons]
    omega
  | cons d w ih =>
    have hinsert := leastChanges_insert_le d a w
    rw [leastChanges_cons_cons]
    omega

theorem leastChanges_replace_le (c d : Char) (a w : List Char) :
    leastChanges (c :: a) w ≤ leastChanges (d :: a) w + 1 := by
  induction w with
  | nil => simp
  | cons e w ih =>
    rw [leastChanges_cons_cons, leastChanges_cons_cons]
    split <;> split <;> omega

/-- What holds of two words against every third one holds with a common character in front. -/
theorem leastChanges_cons_le (h : ∀ w, leastChanges a w ≤ leastChanges b w + 1) (c : Char)
    (w : List Char) : leastChanges (c :: a) w ≤ leastChanges (c :: b) w + 1 := by
  induction w with
  | nil => simpa using h []
  | cons d w ih =>
    have hboth := h w
    have hdelete := h (d :: w)
    rw [leastChanges_cons_cons, leastChanges_cons_cons]
    omega

/-- One change of a word brings it nearer to any other by one at most. -/
theorem LetterChange.leastChanges_le (h : LetterChange a b) (w : List Char) :
    leastChanges a w ≤ leastChanges b w + 1 := by
  have hfront : ∀ (x : List Char) {a b : List Char},
      (∀ w, leastChanges a w ≤ leastChanges b w + 1) →
        ∀ w, leastChanges (x ++ a) w ≤ leastChanges (x ++ b) w + 1 := by
    intro x a b hab
    induction x with
    | nil => exact hab
    | cons c x ih => exact leastChanges_cons_le ih c
  cases h with
  | insert x y c => exact hfront x (leastChanges_le_cons c y) w
  | delete x y c => exact hfront x (leastChanges_delete_le c y) w
  | replace x y c d => exact hfront x (leastChanges_replace_le c d y) w

theorem leastChanges_self (a : List Char) : leastChanges a a = 0 := by
  induction a with
  | nil => simp
  | cons c a ih => simp [leastChanges_cons_cons, ih]

/-- No fewer changes lead from one word to the other. -/
theorem LetterChanges.leastChanges_le (h : LetterChanges n a b) : leastChanges a b ≤ n := by
  induction h with
  | none => rw [leastChanges_self]
  | more hone _ ih =>
    have hle := hone.leastChanges_le
    exact (hle _).trans (Nat.succ_le_succ ih)

/-! ## The table -/

/-- The least numbers of changes from a word to the beginnings of another one, from the beginning
`before` on. Words are kept in reverse, as their last characters are compared. -/
def distancesFrom (u : List Char) : (before word : List Char) → List Nat
  | before, [] => [leastChanges u before]
  | before, d :: word => leastChanges u before :: distancesFrom u (d :: before) word

theorem exists_distancesFrom (u before word : List Char) :
    ∃ rest, distancesFrom u before word = leastChanges u before :: rest := by
  cases word with
  | nil => exact ⟨[], rfl⟩
  | cons d word => exact ⟨_, rfl⟩

/-- The rest of a row is made of the distances of the longer word. -/
theorem distanceRow_eq (c : Char) (u before word : List Char) :
    leastChanges (c :: u) before ::
        distanceRow c (leastChanges (c :: u) before) word (distancesFrom u before word) =
      distancesFrom (c :: u) before word := by
  induction word generalizing before with
  | nil => simp [distancesFrom, distanceRow]
  | cons d word ih =>
    obtain ⟨above, habove⟩ := exists_distancesFrom u (d :: before) word
    have hentry : min (min (leastChanges u before + if c = d then 0 else 1)
        (leastChanges u (d :: before) + 1)) (leastChanges (c :: u) before + 1) =
          leastChanges (c :: u) (d :: before) := by
      rw [leastChanges_cons_cons]
      omega
    rw [distancesFrom, distancesFrom, habove, distanceRow]
    simp only [hentry]
    rw [← habove, ih]

/-- One more character makes the next row. -/
theorem nextDistanceRow_eq (c : Char) (u word : List Char) :
    nextDistanceRow word (distancesFrom u [] word) c = distancesFrom (c :: u) [] word := by
  obtain ⟨rest, hrest⟩ := exists_distancesFrom u [] word
  have hleft : (distancesFrom u [] word).headD 0 + 1 = leastChanges (c :: u) [] := by
    simp [hrest]
  rw [nextDistanceRow]
  simp only [hleft]
  exact distanceRow_eq c u [] word

theorem foldl_nextDistanceRow (a u word : List Char) :
    a.foldl (nextDistanceRow word) (distancesFrom u [] word) =
      distancesFrom (a.reverse ++ u) [] word := by
  induction a generalizing u with
  | nil => rfl
  | cons c a ih => rw [List.foldl_cons, nextDistanceRow_eq, ih, List.reverse_cons,
      List.append_assoc, List.singleton_append]

/-- The first row counts the characters of each beginning. -/
theorem distancesFrom_nil (before word : List Char) :
    distancesFrom [] before word = List.range' before.length (word.length + 1) := by
  induction word generalizing before with
  | nil => simp [distancesFrom]
  | cons d word ih =>
    rw [distancesFrom, ih, leastChanges_nil_left, List.length_cons, List.length_cons,
      ← List.range'_succ]

theorem getLastD_distancesFrom (u before word : List Char) :
    (distancesFrom u before word).getLastD 0 = leastChanges u (word.reverse ++ before) := by
  induction word generalizing before with
  | nil => rfl
  | cons d word ih =>
    obtain ⟨rest, hrest⟩ := exists_distancesFrom u (d :: before) word
    have hlast := ih (d :: before)
    rw [hrest, List.getLastD_cons] at hlast
    rw [distancesFrom, hrest, List.getLastD_cons, List.getLastD_cons, hlast, List.reverse_cons,
      List.append_assoc, List.singleton_append]

/-- The table ends with the distance of the words, read from their ends. -/
theorem editDistance_eq (a b : List Char) :
    editDistance a b = leastChanges a.reverse b.reverse := by
  have hfirst : List.range (b.length + 1) = distancesFrom [] [] b := by
    rw [distancesFrom_nil, List.range_eq_range', List.length_nil]
  rw [editDistance, hfirst, foldl_nextDistanceRow, getLastD_distancesFrom, List.append_nil,
    List.append_nil]

/-- The edit distance is the least number of changes from one word to the other. -/
theorem isLeast_editDistance (a b : List Char) :
    IsLeast {n | LetterChanges n a b} (editDistance a b) := by
  rw [editDistance_eq]
  constructor
  · exact letterChanges_reverse_iff.mp (letterChanges_leastChanges a.reverse b.reverse)
  · intro n h
    exact LetterChanges.leastChanges_le (LetterChanges.reverse h)

/-! ## The nearest keyword -/

/-- The distance between a word and a keyword, regardless of case. -/
def keywordDistance (word keyword : String) : Nat :=
  editDistance (lowercase word).toList (lowercase keyword).toList

/-- A keyword is the first of those at the least distance from a word, which is two at most. -/
structure IsNearest (word : String) (keywords : List String) (keyword : String) : Prop where
  close : keywordDistance word keyword ≤ 2
  first : FirstLeast (keywordDistance word) keywords keyword

/-- What the search for the nearest keyword has found among the keywords read so far. -/
inductive Nearest (word : String) (keywords : List String) : Option (Nat × String) → Prop where
  | nothing (h : ∀ k ∈ keywords, 2 < keywordDistance word k) : Nearest word keywords none
  | found {keyword : String} (h : IsNearest word keywords keyword) :
      Nearest word keywords (some (keywordDistance word keyword, keyword))

variable {word keyword : String} {keywords : List String} {best : Option (Nat × String)}

theorem nearer_eq (word k : String) (best : Option (Nat × String)) :
    nearer (lowercase word) best k =
      if keywordDistance word k ≤ 2 ∧ ∀ b ∈ best, keywordDistance word k < b.1 then
        some (keywordDistance word k, k)
      else best := by
  unfold nearer keywordDistance maxKeywordDistance
  cases best <;> simp

/-- One more keyword is read. -/
theorem Nearest.step (h : Nearest word keywords best) (k : String) :
    Nearest word (keywords ++ [k]) (nearer (lowercase word) best k) := by
  rw [nearer_eq]
  cases h with
  | nothing hfar =>
    by_cases hk : keywordDistance word k ≤ 2
    · rw [if_pos (by simpa using hk)]
      refine .found ⟨hk, .snoc_of_lt ?_⟩
      intro k' hk'
      have hfar' := hfar k' hk'
      omega
    · rw [if_neg (by simpa using hk)]
      apply Nearest.nothing
      intro k' hk'
      rcases List.mem_append.mp hk' with hk' | hk'
      · exact hfar k' hk'
      · rw [List.mem_singleton.mp hk']
        omega
  | @found keyword hnear =>
    simp only [Option.mem_def, Option.some.injEq, forall_eq']
    split
    · rename_i hk
      refine .found ⟨hk.1, .snoc_of_lt ?_⟩
      intro k' hk'
      exact Nat.lt_of_lt_of_le hk.2 (hnear.first.le hk')
    · rename_i hk
      have hclose := hnear.close
      exact .found ⟨hclose, hnear.first.snoc_of_le (by omega)⟩

theorem nearest_foldl (word : String) (keywords : List String) :
    Nearest word keywords (keywords.foldl (nearer (lowercase word)) none) := by
  induction keywords using List.reverseRec with
  | nil => exact .nothing fun _ hk => by cases hk
  | append_singleton keywords k ih =>
    rw [List.foldl_append, List.foldl_cons, List.foldl_nil]
    exact ih.step k

/-- The search ends with the nearest keyword. -/
theorem Nearest.map_eq_some_iff (h : Nearest word keywords best) :
    best.map (·.2) = some keyword ↔ IsNearest word keywords keyword := by
  cases h with
  | nothing hfar =>
    constructor
    · intro h
      cases h
    · intro hnear
      have hclose := hnear.close
      have hlt := hfar keyword hnear.first.mem
      omega
  | found hfound =>
    constructor
    · intro h
      rwa [← Option.some.inj h]
    · intro hnear
      exact congrArg some (hfound.first.unique hnear.first)

/-- The distance of two words is the least number of single characters put in, left out or
replaced that leads from one to the other. A word is taken for a keyword just when it is long
enough, is none of the keywords itself, and the keyword is the first of those nearest to it, two
changes away at most. -/
theorem a_word_misspells_its_first_nearest_keyword :
    (∀ a b : List Char, IsLeast {n | LetterChanges n a b} (editDistance a b)) ∧
    ∀ (word : String) (keywords : List String) (keyword : String),
      nearestKeyword word keywords = some keyword ↔
        4 ≤ word.length ∧ word ∉ keywords ∧ IsNearest word keywords keyword := by
  refine ⟨isLeast_editDistance, ?_⟩
  intro word keywords keyword
  have hsearch : _ ↔ IsNearest word keywords keyword :=
    (nearest_foldl word keywords).map_eq_some_iff
  unfold nearestKeyword minKeywordLength
  by_cases hword : word.length < 4 ∨ word ∈ keywords
  · rw [if_pos (by simpa using hword)]
    constructor
    · intro h
      cases h
    · rintro ⟨hlong, hnew, -⟩
      rcases hword with hshort | hmem
      · omega
      · exact absurd hmem hnew
  · rw [if_neg (by simpa using hword), hsearch]
    rw [not_or, Nat.not_lt] at hword
    exact ⟨fun h => ⟨hword.1, hword.2, h⟩, fun h => h.2.2⟩

end DiagramLint
