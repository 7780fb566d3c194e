-- The lines of a text, read from its first line feed on: a text is one
-- line, or a line, a line feed and the lines of a shorter text. Every line
-- stands in the text where its start says, and so every position has its
-- offset between two characters.
import DiagramLint.Position
import DiagramLint.Proofs.Text.Bytes

namespace DiagramLint.Text

/-! ## Pieces -/

theorem beq_eq_false_of_mem {d : Char} {t : Text} (h : d ∉ t) {c : Char} (hc : c ∈ t) :
    (c == d) = false := by
  rw [beq_eq_false_iff_ne]
  rintro rfl
  exact h hc

theorem splitWhere_ne_nil (p : Char → Bool) (t : Text) : splitWhere p t ≠ [] := by
  cases t with
  | nil => simp [splitWhere]
  | cons c rest =>
    rw [splitWhere]
    split
    · simp
    · split <;> simp

theorem splitWhere_append (p : Char → Bool) {c : Char} (hc : p c = true) (a b : Text) :
    splitWhere p (a ++ c :: b) = splitWhere p a ++ splitWhere p b := by
  induction a with
  | nil => simp [splitWhere, hc]
  | cons d rest ih =>
    rw [List.cons_append, splitWhere, splitWhere, ih]
    split
    · rfl
    · obtain ⟨piece, pieces, hsplit⟩ := List.exists_cons_of_ne_nil (splitWhere_ne_nil p rest)
      rw [hsplit]
      rfl

theorem splitWhere_of_none {p : Char → Bool} {t : Text} (h : ∀ c ∈ t, p c = false) :
    splitWhere p t = [t] := by
  induction t with
  | nil => rfl
  | cons c rest ih =>
    rw [splitWhere, h c List.mem_cons_self, ih fun d hd => h d (List.mem_cons_of_mem c hd)]
    rfl

theorem splitWhere_of_not_mem {d : Char} {t : Text} (h : d ∉ t) : splitWhere (· == d) t = [t] :=
  splitWhere_of_none fun _ hc => beq_eq_false_of_mem h hc

/-- Splitting keeps everything but the separators, which stand between the pieces. -/
theorem intercalate_splitWhere (d : Char) (t : Text) :
    [d].intercalate (splitWhere (· == d) t) = t := by
  induction t with
  | nil => rfl
  | cons c rest ih =>
    obtain ⟨piece, pieces, hsplit⟩ :=
      List.exists_cons_of_ne_nil (splitWhere_ne_nil (· == d) rest)
    rw [hsplit] at ih
    rw [splitWhere, hsplit]
    split
    · rename_i hc
      rw [List.intercalate_cons_cons, ih, beq_iff_eq.mp hc]
      rfl
    · rw [← ih]
      cases pieces with
      | nil => simp
      | cons next more => simp [List.intercalate_cons_cons]

/-! ## The first line and the others -/

theorem eq_line_or_append (t : Text) :
    '\n' ∉ t ∨ ∃ a b, '\n' ∉ a ∧ t = a ++ '\n' :: b := by
  by_cases h : '\n' ∈ t
  · obtain ⟨a, b, rfl, ha⟩ := List.eq_append_cons_of_mem h
    exact Or.inr ⟨a, b, ha, rfl⟩
  · exact Or.inl h

/-- Induction over the lines of a text, the first one taken off. -/
@[elab_as_elim]
theorem line_induction {motive : Text → Prop} (last : ∀ a, '\n' ∉ a → motive a)
    (more : ∀ a b, '\n' ∉ a → motive b → motive (a ++ '\n' :: b)) (t : Text) : motive t := by
  induction hn : t.length using Nat.strongRecOn generalizing t with
  | ind n ih =>
    rcases eq_line_or_append t with h | ⟨a, b, ha, rfl⟩
    · exact last t h
    · refine more a b ha (ih b.length ?_ b rfl)
      simp only [List.length_append, List.length_cons] at hn
      omega

theorem pieces_of_not_mem {a : Text} (h : '\n' ∉ a) : pieces a = [a] :=
  splitWhere_of_not_mem h

theorem pieces_append {a : Text} (h : '\n' ∉ a) (b : Text) :
    pieces (a ++ '\n' :: b) = a :: pieces b := by
  rw [pieces, splitWhere_append _ rfl, ← pieces, pieces_of_not_mem h]
  rfl

theorem pieces_ne_nil (t : Text) : pieces t ≠ [] := splitWhere_ne_nil _ t

/-- The lines of a text that starts at byte `start` of a larger one. -/
def linesAt (start : Nat) (t : Text) : List Line := linesFrom start t.pieces

theorem lines_eq_linesAt (t : Text) : t.lines = linesAt 0 t := rfl

theorem linesAt_of_not_mem (start : Nat) {a : Text} (h : '\n' ∉ a) :
    linesAt start a = [⟨start, a⟩] := by
  rw [linesAt, pieces_of_not_mem h, linesFrom]

theorem linesAt_append (start : Nat) {a : Text} (h : '\n' ∉ a) (b : Text) :
    linesAt start (a ++ '\n' :: b) =
      ⟨start, dropReturn a⟩ :: linesAt (start + byteSize a + 1) b := by
  obtain ⟨p, ps, hp⟩ := List.exists_cons_of_ne_nil (pieces_ne_nil b)
  rw [linesAt, linesAt, pieces_append h, hp, linesFrom]
  simp

theorem dropReturn_isPrefix (a : Text) : dropReturn a <+: a := by
  unfold dropReturn
  split
  · exact List.dropLast_prefix a
  · exact List.prefix_rfl

theorem dropReturn_append {x : Text} (h : x.getLast? ≠ some '\r') (a : Text) :
    dropReturn (x ++ a) = x ++ dropReturn a := by
  rcases List.eq_nil_or_concat a with rfl | ⟨y, c, rfl⟩
  · rw [List.append_nil, dropReturn, if_neg h]
    exact (List.append_nil x).symm
  · unfold dropReturn
    rw [List.concat_eq_append, ← List.append_assoc, List.getLast?_concat, List.getLast?_concat,
      List.dropLast_concat, List.dropLast_concat]
    split
    · rfl
    · rw [List.append_assoc]

/-! ## Where lines stand -/

theorem contents_linesAt (start start' : Nat) (t : Text) :
    (linesAt start t).map Line.content = (linesAt start' t).map Line.content := by
  induction t using line_induction generalizing start start' with
  | last a ha => rw [linesAt_of_not_mem _ ha, linesAt_of_not_mem _ ha]; rfl
  | more a b ha ih =>
    rw [linesAt_append _ ha, linesAt_append _ ha, List.map_cons, List.map_cons, ih]

/-- The first line of a text keeps what it starts with, unless that ends in a carriage return. -/
theorem exists_first_line (start : Nat) {x : Text} (hx : '\n' ∉ x) (hr : x.getLast? ≠ some '\r')
    (post : Text) :
    ∃ tail below, linesAt start (x ++ post) = ⟨start, x ++ tail⟩ :: below ∧ tail <+: post := by
  rcases eq_line_or_append post with hno | ⟨a, b, ha, rfl⟩
  · refine ⟨post, [], ?_, List.prefix_rfl⟩
    rw [linesAt_of_not_mem]
    simpa [hx] using hno
  · have hxa : '\n' ∉ x ++ a := by simpa [hx] using ha
    refine ⟨dropReturn a, linesAt (start + byteSize (x ++ a) + 1) b, ?_, ?_⟩
    · rw [← List.append_assoc, linesAt_append start hxa, dropReturn_append hr]
    · exact (dropReturn_isPrefix a).trans (List.prefix_append _ _)

/-- A line stands in the text at its start. -/
theorem exists_of_mem_linesAt {start : Nat} {t : Text} {line : Line}
    (h : line ∈ linesAt start t) :
    ∃ a b, t = a ++ (line.content ++ b) ∧ line.start = start + byteSize a := by
  induction t using line_induction generalizing start with
  | last a ha =>
    rw [linesAt_of_not_mem start ha, List.mem_singleton] at h
    subst h
    exact ⟨[], [], by simp, by simp⟩
  | more a b ha ih =>
    rw [linesAt_append start ha, List.mem_cons] at h
    rcases h with rfl | h
    · obtain ⟨r, hr⟩ := dropReturn_isPrefix a
      exact ⟨[], r ++ '\n' :: b, by simp [← List.append_assoc, hr], by simp⟩
    · obtain ⟨u, v, hb, hs⟩ := ih h
      refine ⟨a ++ '\n' :: u, v, by simp [hb], ?_⟩
      rw [hs, byteSize_append, byteSize_cons]
      have : '\n'.utf8Size = 1 := rfl
      omega

theorem newline_not_mem_of_mem_linesAt {start : Nat} {t : Text} {line : Line}
    (h : line ∈ linesAt start t) : '\n' ∉ line.content := by
  induction t using line_induction generalizing start with
  | last a ha =>
    rw [linesAt_of_not_mem start ha, List.mem_singleton] at h
    rw [h]
    exact ha
  | more a b ha ih =>
    rw [linesAt_append start ha, List.mem_cons] at h
    rcases h with rfl | h
    · exact fun hm => ha ((dropReturn_isPrefix a).subset hm)
    · exact ih h

theorem linesAt_start_le {start : Nat} {t : Text} {line : Line} (h : line ∈ linesAt start t) :
    start ≤ line.start := by
  obtain ⟨a, -, -, hs⟩ := exists_of_mem_linesAt h
  omega

/-- A line ends before the next one starts, with a line feed at least between them. -/
theorem linesAt_ordered (start : Nat) (t : Text) :
    (linesAt start t).Pairwise fun a b => a.stop < b.start := by
  induction t using line_induction generalizing start with
  | last a ha => simp [linesAt_of_not_mem start ha]
  | more a b ha ih =>
    rw [linesAt_append start ha, List.pairwise_cons]
    refine ⟨?_, ih _⟩
    intro line hl
    have h1 := linesAt_start_le hl
    have h2 := byteSize_le_of_isPrefix (dropReturn_isPrefix a)
    simp only [Line.stop]
    omega

theorem lineCount_pos (t : Text) : 0 < t.lineCount := by
  unfold lineCount
  rw [lines_eq_linesAt]
  induction t using line_induction with
  | last a ha => simp [linesAt_of_not_mem 0 ha]
  | more a b ha _ => simp [linesAt_append 0 ha]

theorem clampLine_bounds (t : Text) (n : Nat) :
    1 ≤ t.clampLine n ∧ t.clampLine n ≤ t.lineCount := by
  have := lineCount_pos t
  unfold clampLine
  omega

theorem line_eq_getElem (t : Text) (n : Nat) :
    t.lines[t.clampLine n - 1]? = some (t.line n) := by
  have h := clampLine_bounds t n
  have hlt : t.clampLine n - 1 < t.lines.length := by
    have : t.lineCount = t.lines.length := rfl
    omega
  rw [line, List.getD_eq_getElem?_getD, List.getElem?_eq_getElem hlt]
  rfl

theorem line_mem (t : Text) (n : Nat) : t.line n ∈ t.lines :=
  List.mem_of_getElem? (line_eq_getElem t n)

theorem content_line_of_line? {t : Text} {n : Nat} {content : Text}
    (h : t.line? n = some content) : (t.line n).content = content := by
  unfold line? at h
  split at h
  · cases h
  · rename_i hn
    obtain ⟨line, hline, rfl⟩ := Option.map_eq_some_iff.mp h
    obtain ⟨hlt, -⟩ := List.getElem?_eq_some_iff.mp hline
    have hclamp : t.clampLine n = n := by
      have : t.lineCount = t.lines.length := rfl
      unfold clampLine
      omega
    have hfound := line_eq_getElem t n
    rw [hclamp, hline, Option.some.injEq] at hfound
    rw [hfound]

/-! ## Text above a line -/

/-- Text that ends a line holds whole lines of any text it starts. -/
theorem exists_lines_above {above : Text} (h : ∀ c ∈ above.getLast?, c = '\n') (start : Nat) :
    ∃ ls : List Line, ls.length = above.count '\n' ∧
      ∀ rest, linesAt start (above ++ rest) = ls ++ linesAt (start + byteSize above) rest := by
  induction above using line_induction generalizing start with
  | last a ha =>
    cases a with
    | nil => exact ⟨[], rfl, fun rest => rfl⟩
    | cons c a =>
      -- a line that is not ended has no line feed at its end
      have hlast := List.getLast?_eq_some_getLast (List.cons_ne_nil c a)
      have hnl := h _ hlast
      exact absurd (hnl ▸ List.getLast_mem (List.cons_ne_nil c a)) ha
  | more a b ha ih =>
    have hb : ∀ c ∈ b.getLast?, c = '\n' := by
      intro c hc
      refine h c ?_
      rw [List.getLast?_append, List.getLast?_cons, Option.mem_def.mp hc]
      rfl
    obtain ⟨ls, hlen, hlines⟩ := ih hb (start + byteSize a + 1)
    refine ⟨⟨start, dropReturn a⟩ :: ls, ?_, ?_⟩
    · rw [List.length_cons, hlen, List.count_append, List.count_eq_zero_of_not_mem ha,
        List.count_cons_self]
      omega
    · intro rest
      have hsize : start + byteSize (a ++ '\n' :: b) = start + byteSize a + 1 + byteSize b := by
        rw [byteSize_append, byteSize_cons]
        have : '\n'.utf8Size = 1 := rfl
        omega
      rw [List.append_assoc, List.cons_append, linesAt_append start ha, hlines, hsize]
      rfl

/-- A line with more line feeds above it than some whole lines have starts behind them. -/
theorem byteSize_le_line_start {above rest : Text} (h : ∀ c ∈ above.getLast?, c = '\n') {n : Nat}
    (hn : above.count '\n' < (above ++ rest).clampLine n) :
    byteSize above ≤ ((above ++ rest).line n).start := by
  obtain ⟨ls, hlen, hlines⟩ := exists_lines_above h 0
  have hget := line_eq_getElem (above ++ rest) n
  rw [lines_eq_linesAt, hlines, List.getElem?_append_right (by omega), Nat.zero_add] at hget
  exact linesAt_start_le (List.mem_of_getElem? hget)

/-! ## Offsets -/

/-- The offset of a position lies between two characters. -/
theorem boundary_offset (t : Text) (p : Position) : Boundary t (t.offset p) := by
  obtain ⟨a, b, ht, hs⟩ := exists_of_mem_linesAt (line_mem t (t.clamp p).line)
  generalize hl : t.line (t.clamp p).line = line at ht hs
  refine ⟨a ++ line.content.take ((t.clamp p).column - 1),
    line.content.drop ((t.clamp p).column - 1) ++ b, ?_, ?_⟩
  · calc t = a ++ (line.content ++ b) := ht
      _ = _ := by
        rw [List.append_assoc, ← List.append_assoc (line.content.take _), List.take_append_drop]
  · simp only [offset, byteOfColumn, hl, byteSize_append, hs]
    omega

/-- A position on a line below some whole lines has its offset behind them. -/
theorem byteSize_le_offset {above rest : Text} (h : ∀ c ∈ above.getLast?, c = '\n') {p : Position}
    (hn : above.count '\n' < (above ++ rest).clampLine p.line) :
    byteSize above ≤ (above ++ rest).offset p := by
  have hclamp : (above ++ rest).clampLine ((above ++ rest).clampLine p.line) =
      (above ++ rest).clampLine p.line := by
    have := clampLine_bounds (above ++ rest) p.line
    unfold clampLine at this ⊢
    omega
  have hstart := byteSize_le_line_start h (n := (above ++ rest).clampLine p.line)
    (by rwa [hclamp])
  simp only [offset, clamp]
  omega

end DiagramLint.Text
