-- Edits that spare a heading: they start behind the header word, and one
-- that starts right behind it puts a character there that ends a word. A
-- batch of such edits leaves a text that opens with the same heading.
import DiagramLint.Proofs.Edit.Splice
import DiagramLint.Proofs.Header.Line

namespace DiagramLint

open Text

theorem followsWord_append {a : Text} (b : Text) (hne : a ≠ []) (h : FollowsWord a) :
    FollowsWord (a ++ b) := by
  intro c hc
  cases a with
  | nil => exact absurd rfl hne
  | cons d more => exact h c hc

namespace Heading

variable {g : Heading} {t : Text}

/-! ## Offsets behind the heading -/

theorem Opens.byteSize_text_le (h : g.Opens t) : byteSize g.text ≤ (t.line g.line).stop := by
  obtain ⟨tail, hline, -⟩ := h.exists_line
  rw [hline, Line.stop, text]
  simp only [byteSize_append]
  omega

/-- A place on a later line lies behind the whole header line. -/
theorem Opens.lt_offset_of_line_lt (h : g.Opens t) {p : Position}
    (hlt : g.line < t.clampLine p.line) : byteSize g.text < t.offset p := by
  have hg := line_eq_getElem t g.line
  have hp := line_eq_getElem t (t.clampLine p.line)
  have hpos := g.line_pos
  have hclamp : t.clampLine (t.clampLine p.line) = t.clampLine p.line := by
    have := clampLine_bounds t p.line
    unfold clampLine at this ⊢
    omega
  rw [h.clampLine_eq] at hg
  rw [hclamp] at hp
  obtain ⟨hi, hgi⟩ := List.getElem?_eq_some_iff.mp hg
  obtain ⟨hj, hpj⟩ := List.getElem?_eq_some_iff.mp hp
  have hord := List.pairwise_iff_getElem.mp (linesAt_ordered 0 t) (g.line - 1)
    (t.clampLine p.line - 1) hi hj (by omega)
  have hstart : (t.line g.line).stop < (t.line (t.clampLine p.line)).start := by
    rw [← hgi, ← hpj]
    exact hord
  have hle := h.byteSize_text_le
  simp only [offset, Text.clamp]
  omega

/-- On the header line, offsets behind the word are counted from the end of the heading. -/
theorem Opens.offset_of_line (h : g.Opens t) {tail : Text}
    (hline : t.line g.line = ⟨byteSize g.above, g.lead ++ g.word ++ tail⟩) {column : Nat}
    (hc : g.column ≤ column) :
    t.offset ⟨g.line, column⟩ = byteSize g.text + byteSize (tail.take (column - g.column)) := by
  have hwidth : (t.line g.line).width = (g.lead ++ g.word).length + tail.length := by
    rw [hline, Line.width, List.length_append]
  have htake : (g.lead ++ g.word ++ tail).take
      (max 1 (min column ((t.line g.line).width + 1)) - 1) =
      g.lead ++ g.word ++ tail.take (column - g.column) := by
    have hlen : (g.lead ++ g.word).length ≤
        max 1 (min column ((t.line g.line).width + 1)) - 1 := by
      rw [hwidth]
      unfold Heading.column at hc
      omega
    rw [List.take_append, List.take_of_length_le hlen]
    congr 1
    rw [hwidth]
    unfold Heading.column at hc ⊢
    rcases Nat.le_total column ((g.lead ++ g.word).length + tail.length + 1) with hle | hle
    · congr 1
      omega
    · rw [List.take_of_length_le (by omega), List.take_of_length_le (by omega)]
  simp only [offset, Text.clamp, h.clampLine_eq, byteOfColumn]
  rw [show (t.line g.line).content = g.lead ++ g.word ++ tail by rw [hline], htake,
    show (t.line g.line).start = byteSize g.above by rw [hline], text]
  simp only [byteSize_append]
  omega

theorem Opens.offset_on_line (h : g.Opens t) {column : Nat} (hc : g.column ≤ column) :
    ∃ tail : Text, (t.line g.line).width = (g.lead ++ g.word).length + tail.length ∧
      t.offset ⟨g.line, column⟩ = byteSize g.text + byteSize (tail.take (column - g.column)) := by
  obtain ⟨tail, hline, -⟩ := h.exists_line
  exact ⟨tail, by rw [hline, Line.width, List.length_append], h.offset_of_line hline hc⟩

theorem Opens.lt_offset_of_past (h : g.Opens t) {p : Position} (hp : g.Past t p) :
    byteSize g.text < t.offset p := by
  rcases hp with ⟨h1, h2⟩ | ⟨h1, h2, h3⟩
  · refine h.lt_offset_of_line_lt ?_
    unfold clampLine
    omega
  · obtain ⟨line, column⟩ := p
    simp only at h1 h2
    subst h1
    obtain ⟨tail, hwidth, hoff⟩ := h.offset_on_line (Nat.le_of_lt h2)
    rw [hoff]
    cases tail with
    | nil =>
      rw [hwidth] at h3
      simp only [Heading.column, List.length_nil] at h3
      omega
    | cons c rest =>
      obtain ⟨k, hk⟩ : ∃ k, column - g.column = k + 1 := ⟨column - g.column - 1, by omega⟩
      have := c.utf8Size_pos
      rw [hk, List.take_succ_cons, byteSize_cons]
      omega

/-- A place of the text at the end of the header word or behind it. -/
def Reaches (g : Heading) (t : Text) (p : Position) : Prop :=
  g.line < p.line ∧ p.line ≤ t.lineCount ∨ p.line = g.line ∧ g.column ≤ p.column

theorem Opens.le_offset_of_reaches (h : g.Opens t) {p : Position} (hp : g.Reaches t p) :
    byteSize g.text ≤ t.offset p := by
  rcases hp with ⟨h1, h2⟩ | ⟨h1, h2⟩
  · refine Nat.le_of_lt (h.lt_offset_of_line_lt ?_)
    unfold clampLine
    omega
  · obtain ⟨line, column⟩ := p
    simp only at h1 h2
    subst h1
    obtain ⟨tail, -, hoff⟩ := h.offset_on_line h2
    omega

/-! ## Sparing edits -/

/-- The edit leaves the heading as it is, and the header word a word. -/
structure Spares (g : Heading) (t : Text) (e : Edit) : Prop where
  le_start : byteSize g.text ≤ (e.resolve t).start
  ends : (e.resolve t).start = byteSize g.text → e.newText ≠ [] ∧ FollowsWord e.newText

theorem spares_of_lt_offset {e : Edit} (hs : byteSize g.text < t.offset e.start)
    (he : byteSize g.text < t.offset e.ending) : g.Spares t e := by
  refine ⟨?_, ?_⟩
  · simp only [Edit.resolve]
    omega
  · intro heq
    simp only [Edit.resolve] at heq
    omega

theorem Opens.spares_of_past (h : g.Opens t) {e : Edit} (hs : g.Past t e.start)
    (he : g.Past t e.ending) : g.Spares t e :=
  spares_of_lt_offset (h.lt_offset_of_past hs) (h.lt_offset_of_past he)

theorem Opens.spares_of_reaches (h : g.Opens t) {e : Edit} (hs : g.Reaches t e.start)
    (he : g.Reaches t e.ending) (hne : e.newText ≠ []) (hends : FollowsWord e.newText) :
    g.Spares t e := by
  have h1 := h.le_offset_of_reaches hs
  have h2 := h.le_offset_of_reaches he
  refine ⟨?_, fun _ => ⟨hne, hends⟩⟩
  simp only [Edit.resolve]
  omega

theorem Past.of_column_le {n column column' : Nat} (h : g.Past t ⟨n, column⟩)
    (hle : column ≤ column') : g.Past t ⟨n, column'⟩ := by
  rcases h with h | ⟨h1, h2, h3⟩
  · exact Or.inl h
  · exact Or.inr ⟨h1, Nat.lt_of_lt_of_le h2 hle, h3⟩

theorem Opens.spares_insert (h : g.Opens t) {p : Position} {newText : Text} (hp : g.Past t p) :
    g.Spares t (.insert p newText) :=
  h.spares_of_past hp hp

theorem Opens.spares_replaceSpan (h : g.Opens t) {n column length : Nat} {newText : Text}
    (hp : g.Past t ⟨n, column⟩) : g.Spares t (.replaceSpan n column length newText) :=
  h.spares_of_past hp (hp.of_column_le (Nat.le_add_right _ _))

/-! ## A batch of sparing edits -/

/-- Edits that spare the heading leave a text that opens with it. -/
theorem Opens.splice (h : g.Opens t) {edits : List Edit} (hs : ∀ e ∈ edits, g.Spares t e) :
    g.Opens (t.splice edits) := by
  have hfit := (fitting_changes t edits).perm (inOrder_perm (t.changes edits)).symm
  have hchange : ∀ c ∈ inOrder (t.changes edits), byteSize g.text ≤ c.1.start ∧
      (c.1.start = byteSize g.text → c.2 ≠ [] ∧ FollowsWord c.2) := by
    intro c hc
    obtain ⟨e, he, rfl⟩ := List.mem_map.mp ((inOrder_perm _).mem_iff.mp hc)
    exact ⟨(hs e he).le_start, (hs e he).ends⟩
  obtain ⟨post, rfl, hpost⟩ := h
  have hb : Boundary (g.text ++ post) (byteSize g.text) := boundary_append _ _
  refine ⟨(g.text ++ post).spliceFrom (byteSize g.text)
    (inOrder ((g.text ++ post).changes edits)), ?_, ?_⟩
  · rw [Text.splice, spliceFrom_split (boundary_zero _) hb (Nat.zero_le _) hfit
      (fun c hc => (hchange c hc).1), slice_zero_append]
  · generalize inOrder ((g.text ++ post).changes edits) = changes at hfit hchange ⊢
    cases changes with
    | nil =>
      rw [spliceFrom, slice_byteSize_append]
      exact hpost
    | cons c rest =>
      obtain ⟨range, newText⟩ := c
      obtain ⟨hle, hends⟩ := hchange _ List.mem_cons_self
      obtain ⟨before, behind, heq, hsize⟩ := (hfit _ List.mem_cons_self).1
      simp only at hle hends hsize
      obtain ⟨mid, rfl⟩ := prefix_of_byteSize_le heq (by omega)
      rw [spliceFrom, ← hsize, heq, slice_append]
      cases mid with
      | nil =>
        obtain ⟨hne, hfollows⟩ := hends (by rw [← hsize, List.append_nil])
        rw [List.nil_append]
        exact followsWord_append _ hne hfollows
      | cons d more =>
        have hpre : d :: more <+: post := by
          refine ⟨behind, ?_⟩
          rw [List.append_assoc] at heq
          exact (List.append_cancel_left heq).symm
        rw [List.append_assoc]
        exact followsWord_append _ (List.cons_ne_nil _ _) (hpost.of_isPrefix hpre)

end Heading

end DiagramLint
