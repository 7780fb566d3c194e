-- The rows of a text: its lines as characters alone. What stands above a row
-- and what stands below it have rows of their own, and a line put in between
-- is one row more.
import DiagramLint.Proofs.Text.Offsets
import DiagramLint.Proofs.Text.Words

namespace DiagramLint.Text

/-- The characters of each line. -/
def rows (t : Text) : List Text := t.lines.map Line.content

theorem rows_eq (start : Nat) (t : Text) : t.rows = (linesAt start t).map Line.content := by
  rw [rows, lines_eq_linesAt, contents_linesAt 0 start]

theorem rows_of_not_mem {a : Text} (h : '\n' ∉ a) : rows a = [a] := by
  rw [rows_eq 0, linesAt_of_not_mem 0 h]
  rfl

theorem rows_append {a : Text} (h : '\n' ∉ a) (b : Text) :
    rows (a ++ '\n' :: b) = dropReturn a :: rows b := by
  rw [rows_eq 0, linesAt_append 0 h, List.map_cons, ← rows_eq]

theorem rows_ne_nil (t : Text) : rows t ≠ [] := by
  induction t using line_induction with
  | last a ha => simp [rows_of_not_mem ha]
  | more a b ha _ => simp [rows_append ha]

/-- A terminated line is its row and the carriage return that may end it. -/
theorem exists_dropReturn (a : Text) :
    ∃ returns, a = dropReturn a ++ returns ∧ (returns = [] ∨ returns = ['\r']) := by
  unfold dropReturn
  split
  · rename_i hlast
    exact ⟨['\r'], (List.dropLast_append_getLast? '\r' hlast).symm, .inr rfl⟩
  · exact ⟨[], (List.append_nil a).symm, .inl rfl⟩

/-- A line of the text's own kind of line ends is one row, without the carriage returns before the
line feed. -/
theorem exists_returns (t : Text) : ∃ returns, (returns = [] ∨ returns = ['\r']) ∧
    ∀ x, '\n' ∉ x → ∀ b, rows (x ++ (t.newline ++ b)) = dropReturn (x ++ returns) :: rows b := by
  obtain ⟨returns, hnewline, hreturns⟩ : ∃ returns, t.newline = returns ++ ['\n'] ∧
      (returns = [] ∨ returns = ['\r']) := by
    unfold Text.newline
    split
    · exact ⟨['\r'], rfl, .inr rfl⟩
    · exact ⟨[], rfl, .inl rfl⟩
  refine ⟨returns, hreturns, fun x hx b => ?_⟩
  have hline : '\n' ∉ x ++ returns := by
    rcases hreturns with rfl | rfl
    · simpa using hx
    · simpa using hx
  rw [hnewline, ← rows_append hline]
  simp

theorem rows_append_newline (t : Text) {x : Text} (hx : '\n' ∉ x) (hr : x.getLast? ≠ some '\r')
    (b : Text) : rows (x ++ (t.newline ++ b)) = x :: rows b := by
  obtain ⟨returns, hreturns, hrows⟩ := exists_returns t
  rw [hrows x hx, dropReturn_append hr]
  rcases hreturns with rfl | rfl
  · rw [show dropReturn [] = [] from rfl, List.append_nil]
  · rw [show dropReturn ['\r'] = [] from rfl, List.append_nil]

/-- The first row of a text goes on as that of what comes behind its start. -/
theorem rows_of_first {x post tail : Text} {below : List Text} (hx : '\n' ∉ x)
    (hr : x.getLast? ≠ some '\r') (h : rows post = tail :: below) :
    rows (x ++ post) = (x ++ tail) :: below := by
  rcases eq_line_or_append post with ha | ⟨a, b, ha, rfl⟩
  · rw [rows_of_not_mem ha, List.cons.injEq] at h
    rw [rows_of_not_mem (by simp [hx, ha]), h.1, ← h.2]
  · rw [rows_append ha, List.cons.injEq] at h
    rw [← List.append_assoc, rows_append (by simp [hx, ha]), dropReturn_append hr, h.1, h.2]

/-- The first row of a text is what the text starts with. -/
theorem isPrefix_of_rows {t x : Text} {below : List Text} (h : rows t = x :: below) : x <+: t := by
  rcases eq_line_or_append t with ha | ⟨a, b, ha, rfl⟩
  · rw [rows_of_not_mem ha, List.cons.injEq] at h
    exact h.1 ▸ List.prefix_rfl
  · rw [rows_append ha, List.cons.injEq] at h
    rw [← h.1]
    exact (dropReturn_isPrefix a).trans (List.prefix_append _ _)

theorem newline_not_mem_rows {t x : Text} (h : x ∈ rows t) : '\n' ∉ x := by
  obtain ⟨line, hline, rfl⟩ := List.mem_map.mp h
  exact newline_not_mem_of_mem_linesAt hline

theorem length_rows (t : Text) : (rows t).length = t.lineCount := List.length_map _

/-! ## Whole rows above -/

/-- The rows of a text that ends with a line feed, without the empty one behind it. -/
def rowsAbove (a : Text) : List Text := (rows a).dropLast

theorem length_rowsAbove (a : Text) : (rowsAbove a).length = a.count '\n' := by
  rw [rowsAbove, List.length_dropLast, length_rows, lineCount_eq_count, Nat.add_sub_cancel]

theorem rowsAbove_append {a : Text} (h : '\n' ∉ a) (b : Text) :
    rowsAbove (a ++ '\n' :: b) = dropReturn a :: rowsAbove b := by
  rw [rowsAbove, rows_append h, List.dropLast_cons_of_ne_nil (rows_ne_nil b), rowsAbove]

/-- Text that ends a line holds whole rows of any text it starts. -/
theorem rows_of_above {a : Text} (h : ∀ c ∈ a.getLast?, c = '\n') (b : Text) :
    rows (a ++ b) = rowsAbove a ++ rows b := by
  induction a using line_induction with
  | last a ha =>
    cases hlast : a.getLast? with
    | none =>
      rw [List.getLast?_eq_none_iff.mp hlast]
      rfl
    | some c => exact absurd (h c hlast ▸ List.mem_of_getLast? hlast) ha
  | more a a' ha ih =>
    rw [List.append_assoc, List.cons_append, rows_append ha, rowsAbove_append ha, List.cons_append]
    rw [ih]
    intro c hc
    refine h c ?_
    rw [List.getLast?_append, List.getLast?_cons, Option.mem_def.mp hc]
    rfl

theorem getLast?_of_append_newline {a b : Text} (h : ∀ c ∈ b.getLast?, c = '\n') :
    ∀ c ∈ (a ++ '\n' :: b).getLast?, c = '\n' := by
  intro c hc
  rw [List.getLast?_append, List.getLast?_cons] at hc
  cases hlast : b.getLast? with
  | none =>
    rw [hlast] at hc
    exact (Option.some.inj hc).symm
  | some d =>
    rw [hlast] at hc
    exact Option.some.inj hc ▸ h d hlast

theorem getLast?_of_append {a b : Text} {c : Char} (h : ∀ d ∈ (a ++ b).getLast?, d = c) :
    ∀ d ∈ b.getLast?, d = c := by
  intro d hd
  refine h d ?_
  rw [List.getLast?_append, Option.mem_def.mp hd]
  rfl

/-- Every line has the text above it, which ends with a line feed. -/
theorem exists_above {t : Text} {n : Nat} (hn : n < t.lineCount) :
    ∃ a b, t = a ++ b ∧ (∀ c ∈ a.getLast?, c = '\n') ∧ a.count '\n' = n := by
  induction t using line_induction generalizing n with
  | last a ha =>
    rw [lineCount_eq_count, List.count_eq_zero_of_not_mem ha] at hn
    exact ⟨[], a, rfl, (fun c hc => by cases hc), by rw [List.count_nil]; omega⟩
  | more a b ha ih =>
    rw [lineCount_eq_count, List.count_append, List.count_eq_zero_of_not_mem ha,
      List.count_cons_self, Nat.zero_add] at hn
    cases n with
    | zero => exact ⟨[], _, rfl, (fun c hc => by cases hc), rfl⟩
    | succ n =>
      obtain ⟨x, y, rfl, hx, hcount⟩ := ih (n := n) (by rw [lineCount_eq_count]; omega)
      refine ⟨a ++ '\n' :: x, y, by simp, getLast?_of_append_newline hx, ?_⟩
      rw [List.count_append, List.count_eq_zero_of_not_mem ha, List.count_cons_self, hcount,
        Nat.zero_add]

/-- The line behind whole lines starts behind them, with the characters of the first row there. -/
theorem exists_line_behind {a : Text} (h : ∀ c ∈ a.getLast?, c = '\n') {b x : Text}
    {rest : List Text} (hb : rows b = x :: rest) :
    ∃ ls below, (a ++ b).StandsBetween ls ⟨byteSize a, x⟩ below ∧ ls.length = a.count '\n' := by
  obtain ⟨ls, hlength, hlines⟩ := exists_lines_above h 0
  have hfirst : ∃ below, linesAt (byteSize a) b = ⟨byteSize a, x⟩ :: below := by
    rcases eq_line_or_append b with hno | ⟨y, z, hy, rfl⟩
    · rw [rows_of_not_mem hno, List.cons.injEq] at hb
      exact ⟨_, by rw [linesAt_of_not_mem _ hno, hb.1]⟩
    · rw [rows_append hy, List.cons.injEq] at hb
      exact ⟨_, by rw [linesAt_append _ hy, hb.1]⟩
  obtain ⟨below, hbelow⟩ := hfirst
  refine ⟨ls, below, ?_, hlength⟩
  rw [StandsBetween, lines_eq_linesAt, hlines, Nat.zero_add, hbelow]

/-- Behind whole lines, columns are counted in the row there. -/
theorem offset_behind {a : Text} (h : ∀ c ∈ a.getLast?, c = '\n') {b x : Text} {rest : List Text}
    (hb : rows b = x :: rest) {column : Nat} (hc : column ≤ x.length) :
    (a ++ b).offset ⟨a.count '\n' + 1, column + 1⟩ = byteSize a + byteSize (x.take column) := by
  obtain ⟨ls, below, hstands, hlength⟩ := exists_line_behind h hb
  rw [← hlength]
  exact hstands.offset_eq (hstands.clamp_eq hc)

end DiagramLint.Text
