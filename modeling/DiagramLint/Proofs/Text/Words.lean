-- White space around a line and the word at its start. Trimming takes only
-- white space away, so the first word of a line is the same before and
-- after it, and no character of a word is white space.
import Mathlib.Data.List.Basic
import Mathlib.Data.List.TakeWhile
import DiagramLint.Proofs.Text.Lines

namespace DiagramLint

/-! ## Characters -/

/-- Tables of which no two ranges meet have no character in common. -/
theorem CharTable.not_holds_of_apart {a b : CharTable}
    (h : a.all (fun r => b.all fun q => r.2 < q.1 || q.2 < r.1) = true) {c : Char}
    (hc : a.holds c = true) : b.holds c = false := by
  simp only [CharTable.holds, List.any_eq_true, Bool.and_eq_true, decide_eq_true_eq] at hc
  obtain ⟨r, hr, hlo, hhi⟩ := hc
  rw [CharTable.holds, List.any_eq_false]
  intro q hq
  have hapart := List.all_eq_true.mp (List.all_eq_true.mp h r hr) q hq
  simp only [Bool.or_eq_true, decide_eq_true_eq] at hapart
  simp only [Bool.and_eq_true, decide_eq_true_eq]
  omega

theorem whiteSpace_apart : whiteSpaceTable.all (fun r =>
    alphanumericTable.all fun q => r.2 < q.1 || q.2 < r.1) = true := by decide +kernel

theorem isIdentChar_of_isWhiteSpace {c : Char} (h : isWhiteSpace c = true) :
    isIdentChar c = false := by
  have htable := CharTable.not_holds_of_apart whiteSpace_apart h
  have hunder : c ≠ '_' := by
    rintro rfl
    exact absurd h (by decide)
  have hascii : c.toNat < 0x80 → c.isAlphanum = false := by
    intro hlt
    simp only [isWhiteSpace, CharTable.holds, whiteSpaceTable, List.any_cons, List.any_nil,
      Bool.or_false, Bool.or_eq_true, Bool.and_eq_true, decide_eq_true_eq] at h
    have hcodes : c.toNat = 9 ∨ c.toNat = 10 ∨ c.toNat = 11 ∨ c.toNat = 12 ∨ c.toNat = 13 ∨
        c.toNat = 32 := by omega
    rw [← Char.ofNat_toNat c]
    rcases hcodes with hn | hn | hn | hn | hn | hn
    all_goals
      rw [hn]
      decide
  unfold isIdentChar isAlphanumeric
  rw [Bool.or_eq_false_iff]
  refine ⟨?_, by simpa using hunder⟩
  split
  · rename_i hlt
    exact hascii hlt
  · exact htable

theorem isDigit_of_isWhiteSpace {c : Char} (h : isWhiteSpace c = true) : c.isDigit = false := by
  simp only [isWhiteSpace, CharTable.holds, whiteSpaceTable, List.any_cons, List.any_nil,
    Bool.or_false, Bool.or_eq_true, Bool.and_eq_true, decide_eq_true_eq] at h
  simp only [Char.isDigit, Bool.and_eq_false_iff, decide_eq_false_iff_not, ge_iff_le,
    UInt32.le_iff_toNat_le]
  change ¬ 48 ≤ c.toNat ∨ ¬ c.toNat ≤ 57
  omega

/-- What is said of each character of a list is decided one character after the other, not over all
the characters there are. -/
theorem forall_mem_of_all {p : Char → Prop} [DecidablePred p] {l : List Char}
    (h : (l.all fun c => decide (p c)) = true) : ∀ c ∈ l, p c := fun c hc =>
  of_decide_eq_true (List.all_eq_true.mp h c hc)

/-- A character with a property is not in a list of characters without it. -/
theorem contains_eq_false_of_all {p : Char → Bool} {l : List Char}
    (hl : (l.all fun d => !p d) = true) {c : Char} (hc : p c = true) : l.contains c = false := by
  rw [← Bool.not_eq_true, List.contains_iff_mem]
  intro hm
  have hnot := List.all_eq_true.mp hl c hm
  rw [hc] at hnot
  cases hnot

namespace Text

/-! ## Trimming -/

theorem exists_dropEndWhile (p : Char → Bool) (t : Text) :
    ∃ gone, t = dropEndWhile p t ++ gone ∧ ∀ c ∈ gone, p c = true := by
  refine ⟨(t.reverse.takeWhile p).reverse, ?_, ?_⟩
  · rw [dropEndWhile, ← List.reverse_append, List.takeWhile_append_dropWhile, List.reverse_reverse]
  · intro c hc
    exact List.mem_takeWhile_imp (List.mem_reverse.mp hc)

theorem exists_trimEnd (t : Text) :
    ∃ gone, t = trimEnd t ++ gone ∧ ∀ c ∈ gone, isWhiteSpace c = true :=
  exists_dropEndWhile isWhiteSpace t

theorem dropEndWhile_append {p : Char → Bool} {t gone : Text} (h : ∀ c ∈ gone, p c = true) :
    dropEndWhile p (t ++ gone) = dropEndWhile p t := by
  unfold dropEndWhile
  rw [List.reverse_append, List.dropWhile_append_of_pos]
  intro c hc
  exact h c (List.mem_reverse.mp hc)

theorem trim_append {t gone : Text} (h : ∀ c ∈ gone, isWhiteSpace c = true) :
    trim (t ++ gone) = trim t := by
  unfold trim trimStart
  by_cases ht : ∀ c ∈ t, isWhiteSpace c = true
  · rw [List.dropWhile_append_of_pos ht, List.dropWhile_eq_nil_iff.mpr ht,
      List.dropWhile_eq_nil_iff.mpr h]
  · have hne : t.dropWhile isWhiteSpace ≠ [] := fun he => ht (List.dropWhile_eq_nil_iff.mp he)
    have hsplit : (t ++ gone).dropWhile isWhiteSpace = t.dropWhile isWhiteSpace ++ gone := by
      rw [List.dropWhile_append, if_neg]
      simpa using hne
    rw [hsplit]
    exact dropEndWhile_append h

theorem trim_dropReturn (a : Text) : trim (dropReturn a) = trim a := by
  unfold dropReturn
  split
  · rename_i hlast
    conv_rhs => rw [← List.dropLast_append_getLast? '\r' hlast]
    refine (trim_append ?_).symm
    intro c hc
    rw [List.mem_singleton.mp hc]
    decide
  · rfl

theorem trim_lead {lead : Text} (h : ∀ c ∈ lead, isWhiteSpace c = true) {c : Char}
    (hc : isWhiteSpace c = false) (rest : Text) :
    trim (lead ++ c :: rest) = trimEnd (c :: rest) := by
  unfold trim trimStart
  rw [List.dropWhile_append_of_pos h, List.dropWhile_cons, hc]
  rfl

/-! ## First words -/

theorem firstWord_trimEnd (t : Text) : firstWord (trimEnd t) = firstWord t := by
  obtain ⟨gone, ht, hgone⟩ := exists_trimEnd t
  have hnone : firstWord gone = [] := by
    cases gone with
    | nil => rfl
    | cons c rest => simp [firstWord, hgone c List.mem_cons_self]
  conv_rhs => rw [ht]
  unfold firstWord at hnone ⊢
  rw [List.takeWhile_append, hnone]
  split
  · rename_i hall
    rw [List.append_nil]
    exact (List.takeWhile_prefix _).eq_of_length hall
  · rfl

end Text

end DiagramLint
