-- The place right behind the first characters of a text: each line feed
-- among them starts a line, every other character moves one column on.
import DiagramLint.Proofs.Text.Lines

namespace DiagramLint

open Text

/-- The position after one more character. -/
def Position.advance (p : Position) (c : Char) : Position :=
  if c = '\n' then ⟨p.line + 1, 1⟩ else ⟨p.line, p.column + 1⟩

/-- The position right behind the first characters of a text. -/
def placeAfter (before : Text) : Position := before.foldl Position.advance ⟨1, 1⟩

theorem foldl_advance_line (p : Position) (x : Text) :
    (x.foldl Position.advance p).line = p.line + x.count '\n' := by
  induction x generalizing p with
  | nil => rfl
  | cons c rest ih =>
    rw [List.foldl_cons, ih, Position.advance, List.count_cons]
    by_cases hc : c = '\n'
    · simp only [hc, if_true, beq_self_eq_true]
      omega
    · simp only [hc, if_false, beq_iff_eq]
      omega

theorem foldl_advance_of_not_mem (p : Position) {x : Text} (h : '\n' ∉ x) :
    x.foldl Position.advance p = ⟨p.line, p.column + x.length⟩ := by
  induction x generalizing p with
  | nil => rfl
  | cons c rest ih =>
    simp only [List.mem_cons, not_or] at h
    rw [List.foldl_cons, ih _ h.2, Position.advance, if_neg fun he => h.1 he.symm, List.length_cons]
    simp only [Position.mk.injEq, true_and]
    omega

theorem lineCount_eq_count (t : Text) : t.lineCount = t.count '\n' + 1 := by
  unfold lineCount
  rw [lines_eq_linesAt]
  generalize 0 = start
  induction t using line_induction generalizing start with
  | last a ha => rw [linesAt_of_not_mem start ha, List.count_eq_zero_of_not_mem ha]; rfl
  | more a b ha ih =>
    rw [linesAt_append start ha, List.length_cons, ih, List.count_append,
      List.count_eq_zero_of_not_mem ha, List.count_cons_self]
    omega

theorem placeAfter_line_le {before t : Text} (h : before <+: t) :
    (placeAfter before).line ≤ t.lineCount := by
  rw [placeAfter, foldl_advance_line, lineCount_eq_count]
  have := h.sublist.count_le '\n'
  simp only
  omega

/-! ## The line of a place -/

theorem foldl_advance_shift (k line column : Nat) (x : Text) :
    x.foldl Position.advance ⟨line + k, column⟩ =
      ⟨(x.foldl Position.advance ⟨line, column⟩).line + k,
        (x.foldl Position.advance ⟨line, column⟩).column⟩ := by
  induction x generalizing line column with
  | nil => rfl
  | cons c rest ih =>
    simp only [List.foldl_cons, Position.advance]
    by_cases hc : c = '\n'
    · rw [if_pos hc, if_pos hc, Nat.add_right_comm]
      exact ih (line + 1) 1
    · rw [if_neg hc, if_neg hc]
      exact ih line (column + 1)

theorem placeAfter_append {a : Text} (h : '\n' ∉ a) (b : Text) :
    placeAfter (a ++ '\n' :: b) = ⟨(placeAfter b).line + 1, (placeAfter b).column⟩ := by
  rw [placeAfter, List.foldl_append, foldl_advance_of_not_mem _ h, List.foldl_cons]
  exact foldl_advance_shift 1 1 1 b

theorem placeAfter_line (before : Text) : (placeAfter before).line = before.count '\n' + 1 := by
  rw [placeAfter, foldl_advance_line]
  exact Nat.add_comm 1 _

theorem placeAfter_column_pos (before : Text) : 0 < (placeAfter before).column := by
  rcases List.eq_nil_or_concat before with rfl | ⟨init, c, rfl⟩
  · exact Nat.one_pos
  · rw [placeAfter, List.concat_eq_append, List.foldl_append, List.foldl_cons, List.foldl_nil,
      Position.advance]
    split <;> simp

/-- What stands behind some characters of a text is found on the line of their place, behind the
characters before it on that line. -/
theorem exists_lineAt (start : Nat) (before : Text) {x : Text} (hx : '\n' ∉ x) (hne : x ≠ [])
    (hr : x.getLast? ≠ some '\r') (post : Text) :
    ∃ above lead tail, before = above ++ lead ∧ '\n' ∉ lead ∧ tail <+: post ∧
      (placeAfter before).column = lead.length + 1 ∧
      (linesAt start (before ++ (x ++ post)))[(placeAfter before).line - 1]? =
        some ⟨start + byteSize above, lead ++ (x ++ tail)⟩ := by
  induction before using line_induction generalizing start with
  | last a ha =>
    have hax : '\n' ∉ a ++ x := by simpa [ha] using hx
    have hlast : (a ++ x).getLast? ≠ some '\r' := by
      rw [List.getLast?_eq_some_getLast hne] at hr
      rw [List.getLast?_append, List.getLast?_eq_some_getLast hne]
      exact hr
    obtain ⟨tail, below, hfirst, htail⟩ := exists_first_line start hax hlast post
    have hplace : placeAfter a = ⟨1, 1 + a.length⟩ := foldl_advance_of_not_mem _ ha
    rw [hplace]
    refine ⟨[], a, tail, rfl, ha, htail, Nat.add_comm 1 a.length, ?_⟩
    rw [← List.append_assoc, hfirst]
    simp
  | more a b ha ih =>
    obtain ⟨above, lead, tail, hb, hlead, htail, hcolumn, hline⟩ := ih (start + byteSize a + 1)
    refine ⟨a ++ '\n' :: above, lead, tail, by simp [hb], hlead, htail, ?_, ?_⟩
    · rw [placeAfter_append ha]
      exact hcolumn
    · rw [placeAfter_append ha, List.append_assoc, List.cons_append, linesAt_append start ha]
      rw [placeAfter_line, Nat.add_sub_cancel] at hline
      simp only [placeAfter_line, Nat.add_sub_cancel, List.getElem?_cons_succ]
      rw [hline, byteSize_append, byteSize_cons]
      have : '\n'.utf8Size = 1 := rfl
      congr 2
      omega

/-- What stands behind some characters of a text, up to the end of its line, is found on the line
of that place and at its column. -/
theorem exists_line?_at (before : Text) {x : Text} (hx : '\n' ∉ x) (hne : x ≠ [])
    (hr : x.getLast? ≠ some '\r') (post : Text) :
    ∃ lead tail, (before ++ (x ++ post)).line? (placeAfter before).line =
        some (lead ++ (x ++ tail)) ∧ (placeAfter before).column = lead.length + 1 := by
  obtain ⟨above, lead, tail, -, -, -, hcolumn, hline⟩ := exists_lineAt 0 before hx hne hr post
  refine ⟨lead, tail, ?_, hcolumn⟩
  rw [line?, if_neg (by rw [placeAfter_line]; omega), lines_eq_linesAt, hline]
  rfl

/-! ## Places in order -/

/-- A place comes before another: on an earlier line, or on the same line and further left. -/
def Position.Before (a b : Position) : Prop :=
  a.line < b.line ∨ a.line = b.line ∧ a.column < b.column

/-- A place comes before another or is the same. -/
def Position.UpTo (a b : Position) : Prop :=
  a.line < b.line ∨ a.line = b.line ∧ a.column ≤ b.column

namespace Position

variable {a b c : Position}

theorem UpTo.refl (a : Position) : a.UpTo a := .inr ⟨rfl, Nat.le_refl _⟩

theorem UpTo.trans (h : a.UpTo b) (h' : b.UpTo c) : a.UpTo c := by
  unfold UpTo at *
  omega

theorem before_or_eq_or_before (a b : Position) : a.Before b ∨ a = b ∨ b.Before a := by
  obtain ⟨line, column⟩ := a
  obtain ⟨line', column'⟩ := b
  simp only [Before, Position.mk.injEq]
  omega

theorem Before.trans_upTo (h : a.Before b) (h' : b.UpTo c) : a.Before c := by
  unfold UpTo Before at *
  omega

theorem upTo_foldl_advance (p : Position) (x : Text) : p.UpTo (x.foldl advance p) := by
  induction x generalizing p with
  | nil => exact .refl p
  | cons c rest ih =>
    refine UpTo.trans ?_ (ih (p.advance c))
    unfold advance UpTo
    split <;> simp

end Position

/-- The place behind some characters comes before the place behind one more and what follows. -/
theorem placeAfter_before (a : Text) (c : Char) (more : Text) :
    (placeAfter a).Before (placeAfter (a ++ c :: more)) := by
  have hnext : (placeAfter a).Before ((placeAfter a).advance c) := by
    unfold Position.advance Position.Before
    split <;> simp
  have hbehind : ((placeAfter a).advance c).UpTo (placeAfter (a ++ c :: more)) := by
    unfold placeAfter
    rw [List.foldl_append, List.foldl_cons]
    exact Position.upTo_foldl_advance _ more
  exact hnext.trans_upTo hbehind

/-- A longer text ends at another place. -/
theorem eq_nil_of_placeAfter_append {a more : Text} (h : placeAfter (a ++ more) = placeAfter a) :
    more = [] := by
  cases more with
  | nil => rfl
  | cons c more =>
    have hbefore := placeAfter_before a c more
    rw [h] at hbefore
    unfold Position.Before at hbefore
    omega

/-- Of the texts that another one starts with, no two end at one place. -/
theorem eq_of_placeAfter_eq {t a b : Text} (ha : a <+: t) (hb : b <+: t)
    (h : placeAfter a = placeAfter b) : a = b := by
  rcases List.prefix_or_prefix_of_prefix ha hb with ⟨more, rfl⟩ | ⟨more, rfl⟩
  · rw [eq_nil_of_placeAfter_append h.symm, List.append_nil]
  · rw [eq_nil_of_placeAfter_append h, List.append_nil]

end DiagramLint
