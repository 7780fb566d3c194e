-- Positions and byte offsets say the same. A position in the text comes back
-- from its offset; an offset comes back as the next place between two
-- characters of its line; and the order of positions is the order of their
-- offsets.
import Mathlib.Data.List.TakeWhile
import Mathlib.Order.Bounds.Defs
import DiagramLint.Proofs.Text.Places

namespace DiagramLint.Text

/-! ## Characters before an offset -/

theorem charsBefore_le_length (n : Nat) (x : Text) : charsBefore n x ≤ x.length := by
  fun_induction charsBefore n x with
  | case1 => exact Nat.zero_le _
  | case2 => exact Nat.zero_le _
  | case3 n c rest ih => simpa using ih

/-- The characters that start before an offset reach up to it, as far as there are any. -/
theorem le_byteSize_take_charsBefore {n : Nat} {x : Text} (h : n ≤ byteSize x) :
    n ≤ byteSize (x.take (charsBefore n x)) := by
  fun_induction charsBefore n x with
  | case1 => exact Nat.zero_le _
  | case2 n => simp at h
  | case3 n c rest ih =>
    rw [byteSize_cons] at h
    have hrest := ih (by omega)
    rw [List.take_succ_cons, byteSize_cons]
    omega

/-- Whatever reaches up to an offset has the characters that start before it. -/
theorem charsBefore_le_of_isPrefix {n : Nat} {a x : Text} (ha : a <+: x) (h : n ≤ byteSize a) :
    charsBefore n x ≤ a.length := by
  fun_induction charsBefore n x generalizing a with
  | case1 => exact Nat.zero_le _
  | case2 => exact Nat.zero_le _
  | case3 n c rest ih =>
    cases a with
    | nil => simp at h
    | cons d a =>
      obtain ⟨rfl, hrest⟩ := List.cons_prefix_cons.mp ha
      rw [byteSize_cons] at h
      simpa using ih hrest (by omega)

theorem byteSize_take_le (x : Text) {m n : Nat} (h : m ≤ n) :
    byteSize (x.take m) ≤ byteSize (x.take n) :=
  byteSize_le_of_isPrefix (List.take_prefix_take_left h)

theorem byteSize_take_lt {x : Text} {m n : Nat} (h : m < n) (hn : n ≤ x.length) :
    byteSize (x.take m) < byteSize (x.take n) := by
  have hlt : m < x.length := Nat.lt_of_lt_of_le h hn
  calc byteSize (x.take m)
      < byteSize (x.take m) + x[m].utf8Size := Nat.lt_add_of_pos_right x[m].utf8Size_pos
    _ = byteSize (x.take (m + 1)) := by rw [← List.take_append_getElem hlt, byteSize_append]; rfl
    _ ≤ byteSize (x.take n) := byteSize_take_le x h

/-! ## Lines by their number -/

/-- A line of a text with the lines above it and those below. -/
def StandsBetween (t : Text) (above : List Line) (line : Line) (below : List Line) : Prop :=
  t.lines = above ++ line :: below

section

variable {t : Text} {above below : List Line} {line : Line}

theorem exists_standsBetween {i : Nat} (h : t.lines[i]? = some line) :
    ∃ above below, above.length = i ∧ t.StandsBetween above line below := by
  obtain ⟨hlt, rfl⟩ := List.getElem?_eq_some_iff.mp h
  refine ⟨t.lines.take i, t.lines.drop (i + 1), List.length_take_of_le (Nat.le_of_lt hlt), ?_⟩
  rw [StandsBetween, ← List.drop_eq_getElem_cons hlt, List.take_append_drop]

namespace StandsBetween

theorem clampLine_eq (h : t.StandsBetween above line below) :
    t.clampLine (above.length + 1) = above.length + 1 := by
  have hcount : t.lineCount = above.length + (below.length + 1) := by
    rw [lineCount, h, List.length_append, List.length_cons]
  unfold clampLine
  omega

theorem line_eq (h : t.StandsBetween above line below) : t.line (above.length + 1) = line := by
  rw [Text.line, h.clampLine_eq, h]
  simp

theorem clamp_eq (h : t.StandsBetween above line below) {column : Nat}
    (hc : column ≤ line.width) :
    t.clamp ⟨above.length + 1, column + 1⟩ = ⟨above.length + 1, column + 1⟩ := by
  simp only [clamp, h.clampLine_eq, h.line_eq, Position.mk.injEq, true_and]
  omega

theorem offset_eq (h : t.StandsBetween above line below) {p : Position} {column : Nat}
    (hp : t.clamp p = ⟨above.length + 1, column + 1⟩) :
    t.offset p = line.start + byteSize (line.content.take column) := by
  rw [offset, hp]
  simp [h.line_eq, byteOfColumn]

/-- The lines above end before the line starts, and those below start behind its end. -/
theorem ordered (h : t.StandsBetween above line below) :
    (∀ earlier ∈ above, earlier.stop < line.start) ∧ ∀ later ∈ below, line.stop < later.start := by
  have hordered := linesAt_ordered 0 t
  rw [← lines_eq_linesAt, h, List.pairwise_append, List.pairwise_cons] at hordered
  obtain ⟨-, ⟨hbelow, -⟩, hacross⟩ := hordered
  exact ⟨fun earlier hm => hacross earlier hm line List.mem_cons_self, hbelow⟩

/-- The line in the characters of the text. -/
theorem exists_text (h : t.StandsBetween above line below) :
    ∃ a b, t = a ++ (line.content ++ b) ∧ byteSize a = line.start := by
  have hmem : line ∈ linesAt 0 t := by
    rw [← lines_eq_linesAt, h]
    simp
  obtain ⟨a, b, ht, hs⟩ := exists_of_mem_linesAt hmem
  exact ⟨a, b, ht, by omega⟩

end StandsBetween

/-- A position in the text names a line and a column of it. -/
theorem exists_clamp (t : Text) (p : Position) :
    ∃ above line below column, t.StandsBetween above line below ∧ column ≤ line.width ∧
      t.clamp p = ⟨above.length + 1, column + 1⟩ := by
  obtain ⟨above, below, hlength, hstands⟩ := exists_standsBetween (line_eq_getElem t p.line)
  have hbounds := clampLine_bounds t p.line
  have hnumber : t.clampLine p.line = above.length + 1 := by omega
  refine ⟨above, t.line p.line, below, max 1 (min p.column ((t.line p.line).width + 1)) - 1,
    hstands, by omega, ?_⟩
  simp only [clamp, hnumber, hstands.line_eq, Position.mk.injEq, true_and]
  omega

/-! ## The line of an offset -/

/-- The last line of a text that starts at an offset or before it. -/
def LastStarting (t : Text) (o : Nat) (line : Line) : Prop :=
  ∃ above below, t.StandsBetween above line below ∧ line.start ≤ o ∧
    ∀ later ∈ below, o < later.start

theorem exists_first (t : Text) : ∃ line below, t.StandsBetween [] line below ∧ line.start = 0 := by
  unfold StandsBetween
  rw [lines_eq_linesAt]
  rcases eq_line_or_append t with h | ⟨a, b, ha, rfl⟩
  · exact ⟨_, [], linesAt_of_not_mem 0 h, rfl⟩
  · exact ⟨_, _, linesAt_append 0 ha b, rfl⟩

theorem exists_lastStarting (t : Text) (o : Nat) : ∃ line, t.LastStarting o line := by
  let early : Line → Bool := fun line => line.start ≤ o
  have hsplit : t.lines.takeWhile early ++ t.lines.dropWhile early = t.lines :=
    List.takeWhile_append_dropWhile
  have hlate : ∀ later ∈ t.lines.dropWhile early, o < later.start := by
    have hstop := List.head?_dropWhile_not early t.lines
    have hordered := (linesAt_ordered 0 t).sublist (List.dropWhile_sublist early)
    rw [← lines_eq_linesAt] at hordered
    cases hrest : t.lines.dropWhile early with
    | nil => simp
    | cons next rest =>
      simp only [hrest, List.head?_cons, early, decide_eq_false_iff_not] at hstop
      rw [hrest, List.pairwise_cons] at hordered
      intro later hm
      rcases List.mem_cons.mp hm with rfl | hm
      · omega
      · have := hordered.1 later hm
        rw [Line.stop] at this
        omega
  -- the first line starts early enough, so there is a last one that does
  rcases List.eq_nil_or_concat (t.lines.takeWhile early) with hnone | ⟨above, line, hlast⟩
  · obtain ⟨first, rest, hfirst, hstart⟩ := exists_first t
    rw [hfirst] at hnone
    simp [early, hstart] at hnone
  · have hmem : line ∈ t.lines.takeWhile early := by simp [hlast]
    rw [hlast, List.concat_eq_append, List.append_assoc, List.singleton_append] at hsplit
    exact ⟨line, above, _, hsplit.symm, by simpa [early] using List.mem_takeWhile_imp hmem, hlate⟩

/-- An offset belongs to the last line that starts early enough. -/
theorem StandsBetween.position_eq {o : Nat} (h : t.StandsBetween above line below)
    (hs : line.start ≤ min o t.byteSize) (hb : ∀ later ∈ below, min o t.byteSize < later.start) :
    t.position o = ⟨above.length + 1,
      charsBefore (min (min o t.byteSize) line.stop - line.start) line.content + 1⟩ := by
  have habove : ∀ earlier ∈ above, decide (earlier.start ≤ min o t.byteSize) = true := by
    intro earlier hm
    have := h.ordered.1 earlier hm
    rw [decide_eq_true_eq, Line.stop] at *
    omega
  have hrun : t.lines.takeWhile (fun line => line.start ≤ min o t.byteSize) = above ++ [line] := by
    rw [h, List.takeWhile_append_of_pos habove, List.takeWhile_cons_of_pos (by simpa using hs)]
    cases below with
    | nil => rfl
    | cons later below =>
      have hlater := hb later List.mem_cons_self
      rw [List.takeWhile_cons_of_neg (by rw [decide_eq_true_eq]; omega)]
  have hline : t.lines.getD above.length ⟨0, []⟩ = line := by
    rw [h]
    simp
  simp only [position, hrun, List.length_append, List.length_singleton, Nat.add_sub_cancel, hline]

end

/-! ## There and back -/

/-- A position comes back from its offset as the position it was moved to. -/
theorem position_offset (t : Text) (p : Position) : t.position (t.offset p) = t.clamp p := by
  obtain ⟨above, line, below, column, hstands, hc, hp⟩ := exists_clamp t p
  have hoffset := hstands.offset_eq hp
  have hwithin : byteSize (line.content.take column) ≤ byteSize line.content :=
    byteSize_le_of_isPrefix (List.take_prefix _ _)
  have hstop : t.offset p ≤ line.stop := by
    rw [hoffset, Line.stop]
    omega
  have hsize : t.offset p ≤ t.byteSize := by
    obtain ⟨before, behind, ht, hb⟩ := boundary_offset t p
    rw [← hb]
    exact byteSize_le_of_isPrefix ⟨behind, ht.symm⟩
  have hchars : charsBefore (byteSize (line.content.take column)) line.content = column := by
    have happend := charsBefore_append (line.content.take column) (line.content.drop column)
    rwa [List.take_append_drop, List.length_take_of_le hc] at happend
  rw [hstands.position_eq (o := t.offset p) (by omega), Nat.min_eq_left hsize,
    Nat.min_eq_left hstop, hoffset, Nat.add_sub_cancel_left, hchars, hp]
  intro later hm
  have := hstands.ordered.2 later hm
  omega

/-- The offset of a place in a line, as the least one between two characters of the text that is
not below the place. -/
theorem StandsBetween.isLeast {t : Text} {above below : List Line} {line : Line}
    (h : t.StandsBetween above line below) {n : Nat} (hn : n ≤ byteSize line.content) :
    IsLeast {m | Boundary t m ∧ line.start + n ≤ m}
      (line.start + byteSize (line.content.take (charsBefore n line.content))) := by
  obtain ⟨a, b, ht, ha⟩ := h.exists_text
  have hreach := le_byteSize_take_charsBefore hn
  generalize hk : charsBefore n line.content = k at hreach ⊢
  refine ⟨⟨?_, by omega⟩, ?_⟩
  · refine ⟨a ++ line.content.take k, line.content.drop k ++ b, ?_, by rw [byteSize_append, ha]⟩
    rw [List.append_assoc, ← List.append_assoc (line.content.take k), List.take_append_drop, ht]
  · rintro m ⟨⟨before, behind, hsplit, rfl⟩, hle⟩
    -- the characters before such an offset start with those before the line
    obtain ⟨x, rfl⟩ : a <+: before :=
      prefix_of_byteSize_le (hsplit ▸ ht).symm (by omega)
    rw [ht, List.append_assoc, List.append_cancel_left_eq] at hsplit
    have hx : x <+: line.content ++ b := ⟨behind, hsplit.symm⟩
    have htake : line.content.take k <+: x := by
      rcases List.prefix_or_prefix_of_prefix hx (List.prefix_append _ _) with hin | hover
      · rw [byteSize_append] at hle
        have hchars := charsBefore_le_of_isPrefix hin (n := n) (by omega)
        refine List.prefix_of_prefix_length_le (List.take_prefix _ _) hin ?_
        rw [List.length_take]
        omega
      · exact (List.take_prefix _ _).trans hover
    rw [byteSize_append, ha]
    exact Nat.add_le_add_left (byteSize_le_of_isPrefix htake) _

/-- An offset comes back from its position as the least one between two characters that is not
below it, nor behind the end of its line. -/
theorem offset_position {t : Text} {o : Nat} {line : Line}
    (h : t.LastStarting (min o t.byteSize) line) :
    IsLeast {n | Boundary t n ∧ min (min o t.byteSize) line.stop ≤ n}
      (t.offset (t.position o)) := by
  obtain ⟨above, below, hstands, hs, hb⟩ := h
  rw [hstands.position_eq hs hb,
    hstands.offset_eq (hstands.clamp_eq (charsBefore_le_length _ _))]
  have hleast := hstands.isLeast (n := min (min o t.byteSize) line.stop - line.start)
    (by rw [Line.stop]; omega)
  have hback : line.start + (min (min o t.byteSize) line.stop - line.start) =
      min (min o t.byteSize) line.stop := by
    rw [Line.stop]
    omega
  rwa [hback] at hleast

/-! ## The order of positions -/

theorem clamp_clamp (t : Text) (p : Position) : t.clamp (t.clamp p) = t.clamp p := by
  obtain ⟨above, line, below, column, hstands, hc, hp⟩ := exists_clamp t p
  rw [hp, hstands.clamp_eq hc]

theorem offset_lt_of_before {t : Text} {p q : Position}
    (h : (t.clamp p).Before (t.clamp q)) : t.offset p < t.offset q := by
  obtain ⟨above, line, below, column, hp, hc, hclamp⟩ := exists_clamp t p
  obtain ⟨above', line', below', column', hq, hc', hclamp'⟩ := exists_clamp t q
  rw [hp.offset_eq hclamp, hq.offset_eq hclamp']
  simp only [Position.Before, hclamp, hclamp', Nat.add_lt_add_iff_right,
    Nat.add_right_cancel_iff] at h
  rcases h with hlt | ⟨heq, hlt⟩
  · have hmem : line ∈ above' := by
      have hget : t.lines[above.length]? = some line := by rw [hp]; simp
      rw [hq, List.getElem?_append_left hlt] at hget
      exact List.mem_of_getElem? hget
    have hends := hq.ordered.1 line hmem
    have hwithin := byteSize_le_of_isPrefix (List.take_prefix column line.content)
    rw [Line.stop] at hends
    omega
  · obtain ⟨rfl, hsame⟩ := List.append_inj (hp.symm.trans hq) heq
    cases hsame
    exact Nat.add_lt_add_left (byteSize_take_lt hlt hc') _

theorem offset_clamp (t : Text) (p : Position) : t.offset (t.clamp p) = t.offset p := by
  rw [offset, clamp_clamp]
  rfl

/-- Positions and byte offsets of a text reconcile. A position comes back from its offset, once it
is moved into the text. An offset comes back as the first place between two characters that is not
below it, or, in the terminator of a line, as the end of the line. Of positions in the text the
earlier one has the smaller offset. -/
theorem positions_and_offsets_reconcile (t : Text) :
    (∀ p, t.position (t.offset p) = t.clamp p) ∧
    (∀ o, ∃ line, t.LastStarting (min o t.byteSize) line ∧
      IsLeast {n | Boundary t n ∧ min (min o t.byteSize) line.stop ≤ n}
        (t.offset (t.position o))) ∧
    ∀ p q, t.offset (t.clamp p) < t.offset (t.clamp q) ↔ (t.clamp p).Before (t.clamp q) := by
  refine ⟨position_offset t, ?_, ?_⟩
  · intro o
    obtain ⟨line, hline⟩ := exists_lastStarting t (min o t.byteSize)
    exact ⟨line, hline, offset_position hline⟩
  · intro p q
    rw [offset_clamp, offset_clamp]
    constructor
    · intro hlt
      rcases Position.before_or_eq_or_before (t.clamp p) (t.clamp q) with h | h | h
      · exact h
      · rw [← offset_clamp, h, offset_clamp] at hlt
        exact absurd hlt (Nat.lt_irrefl _)
      · exact absurd hlt (Nat.lt_asymm (offset_lt_of_before h))
    · exact offset_lt_of_before

end DiagramLint.Text
