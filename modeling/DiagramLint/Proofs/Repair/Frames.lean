-- What one repair touches. Whatever a diagnostic says, a strategy of the
-- built-in repairs makes one edit, inside the text, that changes it; and all
-- but the repair of a block leave every line but that of the diagnostic as
-- it is.
import DiagramLint.Proofs.Header.Passes
import DiagramLint.Proofs.Repair.Entities
import DiagramLint.Proofs.Text.Rows

namespace DiagramLint

open Text

/-! ## A row in place -/

/-- A row of a text, with the whole lines before it and what stands behind it. In place of the row
any characters are one row again, if a carriage return ends them only where one ended the row. -/
structure RowAt (t : Text) (n : Nat) (row above behind : Text) (below : List Text) : Prop where
  text_eq : t = above ++ (row ++ behind)
  whole : ∀ c ∈ above.getLast?, c = '\n'
  number : above.count '\n' + 1 = n
  rows_eq : ∀ made, '\n' ∉ made → (made.getLast? = some '\r' → row.getLast? = some '\r') →
    rows (made ++ behind) = made :: below
  newline_not_mem : '\n' ∉ row

/-- Behind the first row of a text any characters in its place are one row. -/
theorem exists_behind {b row : Text} {below : List Text} (h : rows b = row :: below) :
    ∃ behind, b = row ++ behind ∧ ∀ made, '\n' ∉ made →
      (made.getLast? = some '\r' → row.getLast? = some '\r') →
      rows (made ++ behind) = made :: below := by
  rcases eq_line_or_append b with hno | ⟨x, y, hx, rfl⟩
  · rw [rows_of_not_mem hno, List.cons.injEq] at h
    obtain ⟨rfl, rfl⟩ := h
    refine ⟨[], (List.append_nil b).symm, fun made hmade _ => ?_⟩
    rw [List.append_nil, rows_of_not_mem hmade]
  · rw [rows_append hx, List.cons.injEq] at h
    obtain ⟨rfl, rfl⟩ := h
    obtain ⟨returns, heq, hreturns⟩ := exists_dropReturn x
    refine ⟨returns ++ '\n' :: y, by rw [← List.append_assoc, ← heq], ?_⟩
    intro made hmade hlast
    have hline : '\n' ∉ made ++ returns := by
      rcases hreturns with rfl | rfl
      · simpa using hmade
      · simpa using hmade
    rw [← List.append_assoc, rows_append hline]
    congr 1
    rcases hreturns with rfl | rfl
    · rw [List.append_nil] at heq ⊢
      -- the row has no carriage return at its end, or it would be shorter than the line
      have hrow : x.getLast? ≠ some '\r' := by
        intro hx'
        have hshort := congrArg List.length heq
        rw [dropReturn, if_pos hx', List.length_dropLast] at hshort
        have := List.length_pos_iff.mpr (List.ne_nil_of_mem (List.mem_of_getLast? hx'))
        omega
      rw [dropReturn, if_neg]
      rw [← heq] at hlast
      exact fun hmade' => hrow (hlast hmade')
    · rw [dropReturn, if_pos (by simp), List.dropLast_concat]

theorem exists_rowAt {t : Text} {n : Nat} {row : Text} (h : t.line? n = some row) :
    ∃ above behind below, RowAt t n row above behind below := by
  unfold line? at h
  split at h
  · cases h
  · rename_i hn
    obtain ⟨line, hline, rfl⟩ := Option.map_eq_some_iff.mp h
    obtain ⟨hlt, -⟩ := List.getElem?_eq_some_iff.mp hline
    obtain ⟨a, b, rfl, ha, hcount⟩ := exists_above hlt
    have hrow : (rows (a ++ b))[n - 1]? = some line.content := by
      rw [rows, List.getElem?_map, hline, Option.map_some]
    rw [rows_of_above ha, List.getElem?_append_right (by rw [length_rowsAbove, hcount]),
      length_rowsAbove, hcount, Nat.sub_self] at hrow
    obtain ⟨first, below, hb⟩ := List.exists_cons_of_ne_nil (rows_ne_nil b)
    rw [hb, List.getElem?_cons_zero, Option.some.injEq] at hrow
    rw [hrow] at hb
    obtain ⟨behind, rfl, hrows⟩ := exists_behind hb
    refine ⟨a, behind, below, rfl, ha, by omega, hrows, ?_⟩
    exact newline_not_mem_rows (hb ▸ List.mem_cons_self)

/-! ## One edit in a row -/

/-- An edit of one line that takes the characters `y` away, behind `x`. -/
structure Edit.Takes (e : Edit) (n : Nat) (x y : Text) : Prop where
  start_eq : e.start = ⟨n, x.length + 1⟩
  ending_eq : e.ending = ⟨n, (x ++ y).length + 1⟩

/-- An edit that lies inside a text, and the text that it makes of it, which is another one. -/
structure Edit.Alters (e : Edit) (t t' : Text) : Prop where
  start_inside : t.clamp e.start = e.start
  ending_inside : t.clamp e.ending = e.ending
  ordered : e.start.UpTo e.ending
  applied : t.applyEdits [e] = some t'
  changed : t' ≠ t

/-- An edit of line `n` that makes `k` lines of it and leaves the lines around it as they are. -/
structure Edit.Keeps (e : Edit) (t t' : Text) (n k : Nat) : Prop where
  start_line : e.start.line = n
  ending_line : e.ending.line = n
  rows_eq : ∃ above row made below, rows t = above ++ row :: below ∧ above.length + 1 = n ∧
    rows t' = above ++ (made ++ below) ∧ made.length = k

theorem Edit.Keeps.lineCount_eq {e : Edit} {t t' : Text} {n k : Nat} (h : e.Keeps t t' n k) :
    t'.lineCount + 1 = t.lineCount + k := by
  obtain ⟨above, row, made, below, ht, -, ht', rfl⟩ := h.rows_eq
  rw [← length_rows, ← length_rows, ht, ht']
  simp only [List.length_append, List.length_cons]
  omega

theorem applyEdits_singleton (t : Text) (e : Edit) :
    t.applyEdits [e] = t.replaceRange (e.resolve t) e.newText := by
  simp [applyEdits, List.mergeSort_singleton]

section

variable {t x y z above behind : Text} {below : List Text} {n : Nat} {e : Edit}

namespace RowAt

theorem rows_eq_append (h : RowAt t n (x ++ (y ++ z)) above behind below) :
    rows t = rowsAbove above ++ (x ++ (y ++ z)) :: below ∧ (rowsAbove above).length + 1 = n := by
  refine ⟨?_, by rw [length_rowsAbove, h.number]⟩
  rw [h.text_eq, rows_of_above h.whole, h.rows_eq _ h.newline_not_mem id]

/-- An edit in a row lies inside the text and keeps what is around the characters it takes. -/
theorem applyEdits_eq (h : RowAt t n (x ++ (y ++ z)) above behind below) (he : e.Takes n x y) :
    t.clamp e.start = e.start ∧ t.clamp e.ending = e.ending ∧ e.start.UpTo e.ending ∧
      t.applyEdits [e] = some (above ++ (x ++ (e.newText ++ (z ++ behind)))) := by
  have hrows := h.rows_eq _ h.newline_not_mem id
  obtain ⟨ls, below', hstands, hlength⟩ := exists_line_behind h.whole hrows
  have hposition : ∀ k ≤ (x ++ (y ++ z)).length, t.clamp ⟨n, k + 1⟩ = ⟨n, k + 1⟩ ∧
      t.offset ⟨n, k + 1⟩ = byteSize (above ++ (x ++ (y ++ z)).take k) := by
    intro k hk
    rw [byteSize_append, ← h.number, h.text_eq]
    refine ⟨?_, offset_behind h.whole hrows hk⟩
    rw [← hlength]
    have hc := hstands.clamp_eq hk
    simpa using hc
  have hx := hposition x.length (by simp)
  have hxy := hposition (x ++ y).length (by simp)
  rw [List.take_left] at hx
  rw [← List.append_assoc x y z, List.take_left] at hxy
  refine ⟨he.start_eq ▸ hx.1, he.ending_eq ▸ hxy.1, ?_, ?_⟩
  · rw [he.start_eq, he.ending_eq]
    exact .inr ⟨rfl, by simp⟩
  · have hle : byteSize (above ++ x) ≤ byteSize (above ++ (x ++ y)) := by
      simp only [byteSize_append]
      omega
    have hresolve : e.resolve t = ⟨byteSize (above ++ x), byteSize (above ++ x ++ y)⟩ := by
      rw [Edit.resolve, he.start_eq, he.ending_eq, hx.2, hxy.2]
      simp only [Nat.min_eq_left hle, Nat.max_eq_right hle, List.append_assoc]
    have ht : t = above ++ x ++ y ++ (z ++ behind) := by
      rw [h.text_eq]
      simp
    rw [applyEdits_singleton, hresolve, ht, replaceRange_append]
    simp

/-- An edit that puts other characters in place of some changes the text. -/
theorem alters (h : RowAt t n (x ++ (y ++ z)) above behind below) (he : e.Takes n x y)
    (hne : e.newText ≠ y) : e.Alters t (above ++ (x ++ (e.newText ++ (z ++ behind)))) := by
  obtain ⟨hstart, hending, hordered, happlied⟩ := h.applyEdits_eq he
  refine ⟨hstart, hending, hordered, happlied, fun heq => hne ?_⟩
  rw [h.text_eq] at heq
  simpa using heq

end RowAt

/-- An edit that puts characters of one line in place of other ones: some, not the ones that were
there, and with a carriage return at the end only if there was one. -/
structure Edit.Supplants (e : Edit) (n : Nat) (x y : Text) : Prop extends e.Takes n x y where
  ne_nil : e.newText ≠ []
  ne : e.newText ≠ y
  newline_not_mem : '\n' ∉ e.newText
  return_of_return : e.newText.getLast? = some '\r' → y.getLast? = some '\r'

/-- Such an edit leaves one line in place of the one it is made on. -/
theorem Edit.Supplants.frame (he : e.Supplants n x y) (hrow : t.line? n = some (x ++ (y ++ z))) :
    ∃ t', e.Alters t t' ∧ e.Keeps t t' n 1 := by
  obtain ⟨above, behind, below, h⟩ := exists_rowAt hrow
  obtain ⟨hrows, hnumber⟩ := h.rows_eq_append
  refine ⟨_, h.alters he.toTakes he.ne, by rw [he.start_eq], by rw [he.ending_eq],
    rowsAbove above, _, [x ++ (e.newText ++ z)], below, hrows, hnumber, ?_, rfl⟩
  have hinline := h.newline_not_mem
  simp only [List.mem_append, not_or] at hinline
  have hmade : '\n' ∉ x ++ (e.newText ++ z) := by
    simp [hinline, he.newline_not_mem]
  have hreturn : (x ++ (e.newText ++ z)).getLast? = some '\r' →
      (x ++ (y ++ z)).getLast? = some '\r' := by
    intro hlast
    rw [← List.append_assoc, List.getLast?_append] at hlast ⊢
    cases hz : z.getLast? with
    | some c => simpa [hz] using hlast
    | none =>
      rw [hz, Option.none_or, List.getLast?_append_of_ne_nil _ he.ne_nil] at hlast
      rw [Option.none_or, List.getLast?_append, he.return_of_return hlast, Option.some_or]
  have hbehind := h.rows_eq _ hmade hreturn
  rw [List.append_assoc, List.append_assoc] at hbehind
  rw [rows_of_above h.whole, hbehind]
  rfl

end

/-! ## What the strategies put in -/

/-- Characters of one line, some and without a carriage return. -/
structure Plain (x : Text) : Prop where
  ne_nil : x ≠ []
  newline_not_mem : '\n' ∉ x
  return_not_mem : '\r' ∉ x

instance (x : Text) : Decidable (Plain x) :=
  decidable_of_iff (x ≠ [] ∧ '\n' ∉ x ∧ '\r' ∉ x)
    ⟨fun h => ⟨h.1, h.2.1, h.2.2⟩, fun h => ⟨h.ne_nil, h.newline_not_mem, h.return_not_mem⟩⟩

/-- A strategy whose texts are plain; what it inserts is not as long as the white space that it may
take the place of. -/
def Strategy.Plain : Strategy → Prop
  | .replaceToken replacement => DiagramLint.Plain replacement
  | .replaceKeyword keywords => ∀ k ∈ keywords, DiagramLint.Plain k.toList
  | .encodeLabel rules _ => ∀ r ∈ rules, DiagramLint.Plain r.encoded
  | .repairBracket shapes => ∀ s ∈ shapes, DiagramLint.Plain s.closer
  | .closeBlock _ closer => closer ≠ []
  | .splitStatement => True
  | .insertText text _ _ => DiagramLint.Plain text ∧ text.length ≠ 1

instance : DecidablePred Strategy.Plain
  | .replaceToken replacement => inferInstanceAs (Decidable (Plain replacement))
  | .replaceKeyword keywords => inferInstanceAs (Decidable (∀ k ∈ keywords, Plain k.toList))
  | .encodeLabel rules _ => inferInstanceAs (Decidable (∀ r ∈ rules, Plain r.encoded))
  | .repairBracket shapes => inferInstanceAs (Decidable (∀ s ∈ shapes, Plain s.closer))
  | .closeBlock _ closer => inferInstanceAs (Decidable (closer ≠ []))
  | .splitStatement => inferInstanceAs (Decidable True)
  | .insertText text _ _ => inferInstanceAs (Decidable (Plain text ∧ text.length ≠ 1))

/-- What holds of every listed strategy holds of what a registry of the list has for a code. -/
theorem Registry.forall_of_get? {entries : List (String × Strategy)} {P : Strategy → Prop}
    (h : ∀ entry ∈ entries, P entry.2) {code : String} {s : Strategy}
    (hs : (Registry.ofList entries).get? code = some s) : P s :=
  h _ (Registry.mem_of_get? hs)

theorem Registry.builtin_plain {code : String} {s : Strategy}
    (h : Registry.builtin.get? code = some s) : s.Plain :=
  Registry.forall_of_get? (by decide) h

section

variable {t : Text} {d : Diagnostic} {p : Proposal} {c : Caret} {e : Edit} {line y : Text} {n k : Nat}

theorem Caret.line?_of (h : Caret.of? t d = some c) :
    t.line? d.line = some c.line ∧ c.index ≤ c.line.length := by
  obtain ⟨line, hline, rfl⟩ := Option.map_eq_some_iff.mp h
  exact ⟨hline, Nat.min_le_right _ _⟩

theorem takes_replaceSpan (line newText : Text) {start : Nat} (h : start + k ≤ line.length) :
    (Edit.replaceSpan n (start + 1) k newText).Takes n (line.take start)
      ((line.drop start).take k) := by
  refine ⟨?_, ?_⟩
  · simp [Edit.replaceSpan, Edit.replace]
    omega
  · simp [Edit.replaceSpan, Edit.replace, Edit.ending]
    omega

theorem takes_insert (line newText : Text) (h : k ≤ line.length) :
    (Edit.insert ⟨n, k + 1⟩ newText).Takes n (line.take k) [] := by
  refine ⟨?_, ?_⟩
  · simp [Edit.insert, h]
  · simp [Edit.insert, Edit.ending, h]

theorem Edit.Takes.supplants {x : Text} (h : e.Takes n x y) (hplain : Plain e.newText)
    (hne : e.newText ≠ y) : e.Supplants n x y where
  toTakes := h
  ne_nil := hplain.ne_nil
  ne := hne
  newline_not_mem := hplain.newline_not_mem
  return_of_return hlast := absurd (List.mem_of_getLast? hlast) hplain.return_not_mem

/-- An edit that puts characters in place of some that line `n` of a text has. -/
def Edit.SupplantsIn (e : Edit) (t : Text) (n : Nat) : Prop :=
  ∃ x y z, t.line? n = some (x ++ (y ++ z)) ∧ e.Supplants n x y

theorem supplantsIn_replaceSpan {newText : Text} {start : Nat} (hline : t.line? n = some line)
    (hk : start + k ≤ line.length) (hplain : Plain newText)
    (hne : newText ≠ (line.drop start).take k) :
    (Edit.replaceSpan n (start + 1) k newText).SupplantsIn t n := by
  refine ⟨line.take start, _, line.drop (start + k), ?_,
    (takes_replaceSpan line newText hk).supplants hplain hne⟩
  rw [← List.drop_drop, List.take_append_drop, List.take_append_drop, hline]

theorem supplantsIn_insert {newText : Text} (hline : t.line? n = some line) (hk : k ≤ line.length)
    (hplain : Plain newText) : (Edit.insert ⟨n, k + 1⟩ newText).SupplantsIn t n := by
  refine ⟨line.take k, _, line.drop k, ?_,
    (takes_insert line newText hk).supplants hplain hplain.ne_nil⟩
  rw [List.nil_append, List.take_append_drop, hline]

/-- The characters spanned are the first ones from the caret on. -/
theorem Caret.take_spanned (c : Caret) (d : Diagnostic) :
    (c.line.drop c.index).take (c.spanned d).length = c.spanned d ∧
      (c.spanned d ≠ [] → c.index + (c.spanned d).length ≤ c.line.length) := by
  have hstarts : c.spanned d <+: c.line.drop c.index := List.take_prefix _ _
  refine ⟨(List.prefix_iff_eq_take.mp hstarts).symm, fun hne => ?_⟩
  have hle := hstarts.length_le
  have hpos := List.length_pos_iff.mpr hne
  rw [List.length_drop] at hle
  omega

theorem replaceToken_supplants {replacement : Text} (hplain : Plain replacement)
    (h : replaceToken replacement t d = .ok (some p)) :
    ∃ e, p.edits = [e] ∧ e.SupplantsIn t d.line := by
  obtain ⟨c, hc, ⟨hne, hother⟩, rfl⟩ := replaceToken_eq_some h
  obtain ⟨htake, hle⟩ := c.take_spanned d
  refine ⟨_, rfl, supplantsIn_replaceSpan (Caret.line?_of hc).1 (hle hne) hplain ?_⟩
  rw [htake]
  exact hother.symm

/-- A word of a diagram goes into a line. -/
theorem plain_of_hinted {hint keyword : String} (h : hintedKeyword? hint = some keyword) :
    Plain keyword.toList := by
  obtain ⟨hne, hword⟩ := hintedKeyword?_spec h
  refine ⟨hne, fun hm => ?_, fun hm => ?_⟩
  · exact absurd (hword _ hm) (by decide)
  · exact absurd (hword _ hm) (by decide)

theorem replaceKeyword_supplants {keywords : List String}
    (hplain : ∀ k ∈ keywords, Plain k.toList) (h : replaceKeyword keywords t d = some p) :
    ∃ e, p.edits = [e] ∧ e.SupplantsIn t d.line := by
  obtain ⟨c, keyword, hc, hne, hfrom, rfl⟩ := replaceKeyword_spec h
  obtain ⟨hline, hindex⟩ := Caret.line?_of hc
  refine ⟨_, rfl, supplantsIn_replaceSpan hline ?_ ?_ hne⟩
  · have hahead : c.countAhead isWordChar ≤ c.ahead.length := (List.takeWhile_sublist _).length_le
    rw [Caret.ahead, List.length_drop] at hahead
    omega
  · rcases hfrom with hmem | hint
    · exact hplain _ hmem
    · obtain ⟨hint, -, hnamed⟩ := Option.bind_eq_some_iff.mp hint
      exact plain_of_hinted hnamed

/-- The inside of a span stands in the line from its start on. -/
theorem DelimitedSpan.inside_prefix (line : Text) (s : DelimitedSpan) :
    (s.inside line).2 <+: line.drop (s.inside line).1 := by
  unfold DelimitedSpan.inside
  dsimp only
  split
  · refine (List.dropLast_prefix _).trans ?_
    rw [List.drop_take, List.drop_drop]
    exact List.take_prefix _ _
  · exact List.take_prefix _ _

/-- An encoded part of a line takes the place of the part. -/
theorem supplantsIn_encoded {rules : List EncodeRule} {inner encoded : Text} {start : Nat}
    (hplain : ∀ r ∈ rules, Plain r.encoded) (hline : t.line? n = some line)
    (hinner : inner <+: line.drop start) (hencoded : encodeEntities rules inner = .ok encoded)
    (hne : encoded ≠ inner) :
    (Edit.replaceSpan n (start + 1) inner.length encoded).SupplantsIn t n := by
  have hform : ∀ r ∈ rules, r.encoded ≠ [] := fun r hr => (hplain r hr).ne_nil
  have hencodes := encodes_of_eq_ok hencoded
  have hsome : inner ≠ [] := by
    rintro rfl
    exact hne (Except.ok.inj hencoded).symm
  have htake := List.prefix_iff_eq_take.mp hinner
  have hle : start + inner.length ≤ line.length := by
    have hlength := hinner.length_le
    have hpos := List.length_pos_iff.mpr hsome
    rw [List.length_drop] at hlength
    omega
  have htakes := takes_replaceSpan (n := n) line encoded hle
  rw [← htake] at htakes
  obtain ⟨rest, hrest⟩ := hinner
  refine ⟨line.take start, inner, rest, ?_,
    htakes, hencodes.ne_nil hform hsome, hne, fun hm => ?_, ?_⟩
  · rw [hrest, List.take_append_drop, hline]
  · obtain ⟨above, behind, below, hrow⟩ := exists_rowAt hline
    rcases hencodes.mem_or_mem hm with hm | ⟨r, hr, hm⟩
    · exact hrow.newline_not_mem (List.mem_of_mem_drop (hrest ▸ List.mem_append_left _ hm))
    · exact (hplain r hr).newline_not_mem hm
  · exact hencodes.getLast? hform fun r hr => (hplain r hr).return_not_mem

theorem encodeLabel_supplants {rules : List EncodeRule} {delimiters : List Delimiter}
    (hplain : ∀ r ∈ rules, Plain r.encoded) (h : encodeLabel rules delimiters t d = .ok (some p)) :
    ∃ e, p.edits = [e] ∧ e.SupplantsIn t d.line := by
  obtain ⟨c, hc, ⟨span, encoded, hspan, hencoded, hne, he⟩ |
    ⟨-, rule, hrule, ⟨hraw, hencoded⟩, he⟩⟩ := encodeLabel_spec h
  · obtain ⟨hline, -⟩ := Caret.line?_of hc
    exact ⟨_, he, supplantsIn_encoded hplain hline (span.inside_prefix c.line) hencoded hne⟩
  · obtain ⟨hline, hindex⟩ := Caret.line?_of hc
    rw [List.isPrefixOf_iff_prefix] at hraw hencoded
    have hle := hraw.length_le
    rw [Caret.ahead, List.length_drop] at hle
    refine ⟨_, he, supplantsIn_replaceSpan hline (by omega) (hplain rule hrule) fun heq => ?_⟩
    exact hencoded (heq ▸ List.take_prefix _ _)

theorem Shape.foldl_longer_mem {shapes : List Shape} {best : Option Shape} {s : Shape}
    (h : shapes.foldl longer best = some s) : best = some s ∨ s ∈ shapes := by
  induction shapes generalizing best with
  | nil => exact .inl h
  | cons first shapes ih =>
    rcases ih h with hbest | hmem
    · cases best with
      | none => exact .inr (Option.some.inj hbest ▸ List.mem_cons_self)
      | some b =>
        simp only [longer] at hbest
        split at hbest
        · exact .inr (Option.some.inj hbest ▸ List.mem_cons_self)
        · exact .inl hbest
    · exact .inr (List.mem_cons_of_mem _ hmem)

theorem Shape.mem_of_unmatched? {shapes : List Shape} {openEnd : Nat} {s : Shape}
    (h : unmatched? shapes c = some (openEnd, s)) : s ∈ shapes := by
  obtain ⟨back, -, h⟩ := Option.bind_eq_some_iff.mp h
  obtain ⟨longest, hlongest, h⟩ := Option.bind_eq_some_iff.mp h
  have hs : longest = s := congrArg Prod.snd (Option.some.inj h)
  rcases foldl_longer_mem hlongest with hnone | hmem
  · cases hnone
  · exact hs ▸ (List.mem_filter.mp hmem).1

theorem repairBracket_supplants {shapes : List Shape} (hplain : ∀ s ∈ shapes, Plain s.closer)
    (h : repairBracket shapes t d = .ok (some p)) : ∃ e, p.edits = [e] ∧ e.SupplantsIn t d.line := by
  obtain ⟨c, openEnd, shape, hc, hshape, ⟨hne, rfl⟩ | rfl⟩ := repairBracket_spec h
  · obtain ⟨hline, hindex⟩ := Caret.line?_of hc
    obtain ⟨htake, hle⟩ := c.take_spanned d
    refine ⟨_, rfl, supplantsIn_replaceSpan hline ?_ (hplain _ (Shape.mem_of_unmatched? hshape)) ?_⟩
    · by_cases hnil : c.spanned d = []
      · rwa [hnil]
      · exact hle hnil
    · rw [htake]
      exact hne.symm
  · obtain ⟨hline, hindex⟩ := Caret.line?_of hc
    refine ⟨_, rfl, supplantsIn_insert hline ?_ (hplain _ (Shape.mem_of_unmatched? hshape))⟩
    exact (Nat.min_le_right _ _).trans hindex

theorem Anchor.point_le {anchor : Anchor} (h : Caret.of? t d = some c) :
    anchor.point c ≤ c.line.length := by
  cases anchor with
  | caret => exact (Caret.line?_of h).2
  | lineEnd =>
    obtain ⟨gone, hline, -⟩ := exists_trimEnd c.line
    have hlength := congrArg List.length hline
    rw [List.length_append] at hlength
    rw [Anchor.point]
    omega

theorem insertText_supplants {text : Text} {anchor : Anchor} {level : Level} (hplain : Plain text)
    (hlength : text.length ≠ 1) (h : insertText text anchor level t d = some p) :
    ∃ e, p.edits = [e] ∧ e.SupplantsIn t d.line := by
  obtain ⟨c, hc, ⟨hwhite, rfl⟩ | ⟨-, rfl⟩⟩ := insertText_spec h
  · obtain ⟨hline, -⟩ := Caret.line?_of hc
    obtain ⟨ch, rest, hahead⟩ : ∃ ch rest, c.line.drop (anchor.point c) = ch :: rest := by
      refine List.exists_cons_of_ne_nil fun hnil => ?_
      rw [hnil] at hwhite
      cases hwhite
    refine ⟨_, rfl, supplantsIn_replaceSpan hline ?_ hplain ?_⟩
    · have hcount := congrArg List.length hahead
      rw [List.length_drop, List.length_cons] at hcount
      omega
    · rw [hahead]
      rintro rfl
      exact hlength rfl
  · exact ⟨_, rfl, supplantsIn_insert (Caret.line?_of hc).1 (Anchor.point_le hc) hplain⟩

/-! ## The two repairs that make a line -/

theorem alters_insert {newText : Text} (hline : t.line? n = some line) (hk : k ≤ line.length)
    (hne : newText ≠ []) : ∃ t', (Edit.insert ⟨n, k + 1⟩ newText).Alters t t' := by
  rw [← List.take_append_drop k line, ← List.nil_append (line.drop k)] at hline
  obtain ⟨above, behind, below, h⟩ := exists_rowAt hline
  exact ⟨_, h.alters (takes_insert line newText hk) hne⟩

theorem line?_lineCount (t : Text) : t.line? t.lineCount = some (t.line t.lineCount).content := by
  have hpos := lineCount_pos t
  have hclamp : t.clampLine t.lineCount = t.lineCount := by
    unfold clampLine
    omega
  have hget := line_eq_getElem t t.lineCount
  rw [hclamp] at hget
  rw [line?, if_neg (by omega), hget, Option.map_some]

/-- The end of a block is put in front of a line of the text, or behind its last one. -/
theorem closeBlock_alters {opener : BlockOpener} {closer : Text} (hne : closer ≠ [])
    (h : closeBlock opener closer t d = some p) : ∃ e t', p.edits = [e] ∧ e.Alters t t' := by
  obtain ⟨number, -, h⟩ := Option.bind_eq_some_iff.mp h
  have hp := (Option.some.inj h).symm
  subst hp
  have hbefore : ∀ a b : Text, a ++ closer ++ b ≠ [] := by simp [hne]
  have hbehind : ∀ a : Text, a ++ closer ≠ [] := by simp [hne]
  split
  · rename_i body hbody
    obtain ⟨hlt, -⟩ := List.findIdx?_eq_some_iff_getElem.mp hbody
    rw [List.length_drop, List.length_map] at hlt
    have hline : t.line? (number + body + 1) = some (t.lines[number + body]).content := by
      rw [line?, if_neg (by omega), Nat.add_sub_cancel, List.getElem?_eq_getElem, Option.map_some]
    obtain ⟨t', ht'⟩ := alters_insert hline (Nat.zero_le _) (hbefore _ _)
    exact ⟨_, t', rfl, ht'⟩
  · have hlast := line?_lineCount t
    split
    · obtain ⟨t', ht'⟩ := alters_insert hlast (Nat.zero_le _) (hbefore _ _)
      exact ⟨_, t', rfl, ht'⟩
    · obtain ⟨t', ht'⟩ := alters_insert hlast (Nat.le_refl _) (hbehind _)
      exact ⟨_, t', rfl, ht'⟩

/-- The white space at the end of some characters, and the characters before it. -/
theorem exists_white_end (w : Text) : ∃ x y, w = x ++ y ∧ (∀ ch ∈ y, isWhiteSpace ch = true) ∧
    (∀ ch ∈ x.getLast?, isWhiteSpace ch = false) ∧
    y.length = (w.reverse.takeWhile isWhiteSpace).length := by
  refine ⟨(w.reverse.dropWhile isWhiteSpace).reverse, (w.reverse.takeWhile isWhiteSpace).reverse,
    ?_, fun ch hch => ?_, fun ch hch => ?_, List.length_reverse⟩
  · rw [← List.reverse_append, List.takeWhile_append_dropWhile, List.reverse_reverse]
  · exact List.mem_takeWhile_imp (List.mem_reverse.mp hch)
  · rw [List.getLast?_reverse] at hch
    have hstop := List.head?_dropWhile_not isWhiteSpace w.reverse
    rw [Option.mem_def.mp hch] at hstop
    exact hstop

theorem isWhiteSpace_of_mem_newline {ch : Char} (h : ch ∈ t.newline) : isWhiteSpace ch = true := by
  have hall : ['\r', '\n'].all isWhiteSpace = true := by decide
  refine List.all_eq_true.mp hall ch ?_
  unfold Text.newline at h
  split at h
  · exact h
  · exact List.mem_cons_of_mem _ h

theorem newline_mem_newline (t : Text) : '\n' ∈ t.newline := by
  unfold Text.newline
  split <;> simp

theorem isBlankChar_of_mem_indent {ch : Char} (h : ch ∈ line.indent) : ch = ' ' ∨ ch = '\t' := by
  simpa using List.mem_takeWhile_imp h

/-- A line broken between two parts of it, at white space, is two lines. -/
theorem RowAt.rows_split {x y z above behind : Text} {below : List Text} {indent : Text}
    (h : RowAt t n (x ++ (y ++ z)) above behind below)
    (hlast : ∀ ch ∈ x.getLast?, isWhiteSpace ch = false) (hz : z ≠ [])
    (hindent : ∀ ch ∈ indent, ch = ' ' ∨ ch = '\t') :
    rows (above ++ (x ++ (t.newline ++ indent ++ (z ++ behind)))) =
      rowsAbove above ++ (x :: (indent ++ z) :: below) := by
  have hinline := h.newline_not_mem
  simp only [List.mem_append, not_or] at hinline
  have hlower : '\n' ∉ indent ++ z := by
    rw [List.mem_append, not_or]
    refine ⟨fun hm => ?_, hinline.2.2⟩
    rcases hindent _ hm with heq | heq
    all_goals exact absurd heq (by decide)
  have hreturn : x.getLast? ≠ some '\r' := fun heq => absurd (hlast _ heq) (by decide)
  have hend : (indent ++ z).getLast? = some '\r' → (x ++ (y ++ z)).getLast? = some '\r' := by
    rw [← List.append_assoc, List.getLast?_append_of_ne_nil _ hz,
      List.getLast?_append_of_ne_nil _ hz]
    exact id
  have hbehind := h.rows_eq _ hlower hend
  rw [List.append_assoc] at hbehind
  rw [rows_of_above h.whole, List.append_assoc, rows_append_newline t hinline.1 hreturn, hbehind]

/-- A statement is split off on a line of its own, and only white space is changed. -/
theorem splitStatement_frame (h : splitStatement t d = some p) :
    ∃ e t', p.edits = [e] ∧ e.Alters t t' ∧ e.Keeps t t' d.line 2 ∧
      t'.filter (!isWhiteSpace ·) = t.filter (!isWhiteSpace ·) := by
  obtain ⟨c, index, cut, hc, -, hcut, hlt, hpos, rfl⟩ := splitStatement_spec h
  obtain ⟨hline, -⟩ := Caret.line?_of hc
  obtain ⟨x, y, hxy, hwhite, hlast, hlength⟩ := exists_white_end (c.line.take index)
  obtain ⟨z, hz⟩ : ∃ z, c.line.drop index = z := ⟨_, rfl⟩
  have hrow : c.line = x ++ (y ++ z) := by
    rw [← List.append_assoc, ← hxy, ← hz, List.take_append_drop]
  have hindex : (x ++ y).length = index := by
    rw [← hxy, List.length_take]
    omega
  have hx : x.length = cut := by
    rw [List.length_append] at hindex
    omega
  have hzne : z ≠ [] := by
    rintro rfl
    have := List.drop_eq_nil_iff.mp hz
    omega
  have htakes : Edit.Takes (.replace ⟨d.line, cut + 1⟩ ⟨d.line, index + 1⟩
      (t.newline ++ c.line.indent)) d.line x y := ⟨by rw [hx]; rfl, by rw [hindex]; rfl⟩
  have hput : ∀ ch ∈ t.newline ++ c.line.indent, isWhiteSpace ch = true := by
    intro ch hch
    rcases List.mem_append.mp hch with hch | hch
    · exact isWhiteSpace_of_mem_newline hch
    · rcases isBlankChar_of_mem_indent hch with rfl | rfl
      all_goals decide
  obtain ⟨above, behind, below, hat⟩ := exists_rowAt (hrow ▸ hline)
  have hinline := hat.newline_not_mem
  simp only [List.mem_append, not_or] at hinline
  have hne : t.newline ++ c.line.indent ≠ y := by
    rintro rfl
    exact hinline.2.1 (List.mem_append_left _ (newline_mem_newline t))
  obtain ⟨hrows, hnumber⟩ := hat.rows_eq_append
  refine ⟨_, _, rfl, hat.alters htakes hne, ⟨rfl, rfl, rowsAbove above, _, [x, c.line.indent ++ z],
    below, hrows, hnumber, ?_, rfl⟩, ?_⟩
  · exact hat.rows_split hlast hzne fun ch => isBlankChar_of_mem_indent
  · have hnone : ∀ w : Text, (∀ ch ∈ w, isWhiteSpace ch = true) →
        w.filter (!isWhiteSpace ·) = [] := by
      intro w hw
      simpa using hw
    conv_rhs => rw [hat.text_eq]
    simp only [List.filter_append, hnone y hwhite, Edit.replace]
    rw [← List.filter_append, hnone _ hput]
    simp

end

/-! ## One repair at a time -/

/-- Of the built-in strategies, only those that look at what a diagnostic spans can fail. -/
theorem Registry.builtin_answers_iff {code : String} {strategy : Strategy} {t : Text}
    {d : Diagnostic} (hs : Registry.builtin.get? code = some strategy) :
    strategy.Answers t d ↔
      match strategy with
      | .replaceToken _ => ∀ c, Caret.of? t d = some c → c.Fits d
      | .repairBracket shapes =>
        ∀ c, Caret.of? t d = some c → Shape.unmatched? shapes c ≠ none → c.Fits d
      | _ => True := by
  have hplain := Registry.builtin_plain hs
  cases strategy with
  | encodeLabel rules delimiters =>
    exact iff_of_true (fun _ _ _ _ => .inl fun r hr => (hplain r hr).ne_nil) trivial
  | _ => rfl

/-- A strategy of the built-in repairs has an answer, unless it looks at what a diagnostic spans and
that ends at more than 64 bits can count. If it does not decline, it makes one edit, inside the text,
that changes the text. But for the end of a block, the edit is made on the line of the diagnostic, and
every other line stays; the line stays one line, unless a statement is split off, which makes two of
it and changes white space only. -/
theorem a_repair_is_one_edit_of_its_line {code : String} {strategy : Strategy} (t : Text)
    (d : Diagnostic) (hs : Registry.builtin.get? code = some strategy) :
    ((∃ p, strategy.propose t d = .ok p) ↔
      match strategy with
      | .replaceToken _ => ∀ c, Caret.of? t d = some c → c.Fits d
      | .repairBracket shapes =>
        ∀ c, Caret.of? t d = some c → Shape.unmatched? shapes c ≠ none → c.Fits d
      | _ => True) ∧
    ∀ p, strategy.propose t d = .ok (some p) →
      ∃ e t', p.edits = [e] ∧ e.Alters t t' ∧
        match strategy with
        | .closeBlock _ _ => True
        | .splitStatement => e.Keeps t t' d.line 2 ∧ t'.lineCount = t.lineCount + 1 ∧
            t'.filter (!isWhiteSpace ·) = t.filter (!isWhiteSpace ·)
        | _ => e.Keeps t t' d.line 1 ∧ t'.lineCount = t.lineCount := by
  refine ⟨(Strategy.exists_propose_iff).trans (Registry.builtin_answers_iff hs), fun p h => ?_⟩
  have hplain := Registry.builtin_plain hs
  have hframe : ∀ {e : Edit}, p.edits = [e] → e.SupplantsIn t d.line →
      ∃ e t', p.edits = [e] ∧ e.Alters t t' ∧ e.Keeps t t' d.line 1 ∧
        t'.lineCount = t.lineCount := by
    rintro e he ⟨x, y, z, hline, hsupplants⟩
    obtain ⟨t', halters, hkeeps⟩ := hsupplants.frame hline
    exact ⟨e, t', he, halters, hkeeps, Nat.succ_injective hkeeps.lineCount_eq⟩
  cases strategy with
  | replaceToken replacement =>
    obtain ⟨e, he, hsupplants⟩ := replaceToken_supplants hplain h
    exact hframe he hsupplants
  | replaceKeyword keywords =>
    obtain ⟨e, he, hsupplants⟩ := replaceKeyword_supplants hplain (Except.ok.inj h)
    exact hframe he hsupplants
  | encodeLabel rules delimiters =>
    obtain ⟨e, he, hsupplants⟩ := encodeLabel_supplants hplain h
    exact hframe he hsupplants
  | repairBracket shapes =>
    obtain ⟨e, he, hsupplants⟩ := repairBracket_supplants hplain h
    exact hframe he hsupplants
  | closeBlock opener closer =>
    obtain ⟨e, t', he, halters⟩ := closeBlock_alters hplain (Except.ok.inj h)
    exact ⟨e, t', he, halters, trivial⟩
  | splitStatement =>
    obtain ⟨e, t', he, halters, hkeeps, hfilter⟩ := splitStatement_frame (Except.ok.inj h)
    exact ⟨e, t', he, halters, hkeeps, Nat.succ_injective hkeeps.lineCount_eq, hfilter⟩
  | insertText text anchor level =>
    obtain ⟨e, he, hsupplants⟩ := insertText_supplants hplain.1 hplain.2 (Except.ok.inj h)
    exact hframe he hsupplants

/-- Two statements of a flowchart on the second of two lines. -/
def crowdedLine : Text := "graph TD\r\nA --> B C".toList

/-- What is reported of the second statement. -/
def crowdedFinding : Diagnostic where
  line := 2
  column := 9
  message := "Unexpected text after the statement"
  severity := .error
  code := some Code.statementTrailingTokens

theorem a_crowded_line_is_split_in_two :
    ∃ p, Strategy.splitStatement.propose crowdedLine crowdedFinding = .ok (some p) ∧
      ∃ e t', p.edits = [e] ∧ e.Alters crowdedLine t' ∧ e.Keeps crowdedLine t' 2 2 ∧
        t'.lineCount = 3 ∧
        t'.filter (!isWhiteSpace ·) = crowdedLine.filter (!isWhiteSpace ·) := by
  have hp : Strategy.splitStatement.propose crowdedLine crowdedFinding =
      .ok (some (.safe (.replace ⟨2, 8⟩ ⟨2, 9⟩ ['\r', '\n']))) := by decide +kernel
  have hs : Registry.builtin.get? Code.statementTrailingTokens = some .splitStatement := rfl
  exact ⟨_, hp, (a_repair_is_one_edit_of_its_line crowdedLine crowdedFinding hs).2 _ hp⟩

theorem an_overlong_finding_is_not_declined :
    Registry.builtin.get? Code.arrowInvalid = some (.replaceToken "-->".toList) ∧
      (Strategy.replaceToken "-->".toList).propose shortArrow overlongFinding =
        .error .overflow := by
  decide +kernel

end DiagramLint
