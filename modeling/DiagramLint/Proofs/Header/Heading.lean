-- The heading of a text: the lines that detection passes over, and the
-- header line up to the end of its first word. A text has a header word
-- exactly when it opens with a heading of that word, and what follows the
-- heading has no say in it.
import DiagramLint.Dialect
import DiagramLint.Proofs.Text.Words

namespace DiagramLint

open Text

/-! ## Lines as detection reads them -/

/-- Whether a line is neither blank nor a comment. -/
def significant (line : Text) : Bool := !line.trim.isEmpty && !line.trim.startsWith ['%', '%']

/-- The first word of a line, if it does not start with a semicolon. -/
def wordOf? (line : Text) : Option String :=
  if line.trim.firstWord.isEmpty then none else some (String.ofList line.trim.firstWord)

theorem significant_dropReturn (a : Text) : significant (dropReturn a) = significant a := by
  rw [significant, significant, trim_dropReturn]

theorem headerWord?_eq (t : Text) (start : Nat) :
    headerWord? t = (((linesAt start t).map Line.content).find? significant).bind wordOf? := by
  rw [contents_linesAt start 0 t, ← lines_eq_linesAt, headerWord?,
    show (t.lines.map fun l => l.content.trim) = (t.lines.map Line.content).map trim by
      rw [List.map_map]; rfl,
    List.find?_map, Option.bind_eq_bind, Option.bind_map]
  rfl

theorem wordOf?_dropReturn (a : Text) : wordOf? (dropReturn a) = wordOf? a := by
  rw [wordOf?, wordOf?, trim_dropReturn]

theorem headerWord?_of_not_mem {a : Text} (h : '\n' ∉ a) :
    headerWord? a = if significant a then wordOf? a else none := by
  rw [headerWord?_eq a 0, linesAt_of_not_mem 0 h, List.map_cons, List.map_nil, List.find?_cons]
  cases significant a
  · rfl
  · rfl

theorem headerWord?_append {a : Text} (h : '\n' ∉ a) (b : Text) :
    headerWord? (a ++ '\n' :: b) = if significant a then wordOf? a else headerWord? b := by
  rw [headerWord?_eq _ 0, linesAt_append 0 h, headerWord?_eq b (0 + byteSize a + 1),
    List.map_cons, List.find?_cons, significant_dropReturn]
  cases significant a
  · rfl
  · exact wordOf?_dropReturn a

/-! ## Headings -/

/-- A word that can head a diagram. -/
structure IsHeaderWord (word : Text) : Prop where
  ne_nil : word ≠ []
  ident : ∀ c ∈ word, isIdentChar c = true

/-- White space or a semicolon, which end the header word. -/
def endsWord (c : Char) : Bool := isWhiteSpace c || c == ';'

theorem isIdentChar_of_endsWord {c : Char} (h : endsWord c = true) : isIdentChar c = false := by
  simp only [endsWord, Bool.or_eq_true, beq_iff_eq] at h
  rcases h with h | rfl
  · exact isIdentChar_of_isWhiteSpace h
  · decide

theorem endsWord_of_isIdentChar {c : Char} (h : isIdentChar c = true) : endsWord c = false := by
  rw [← Bool.not_eq_true]
  intro he
  rw [isIdentChar_of_endsWord he] at h
  cases h

theorem IsHeaderWord.endsWord_eq_false {word : Text} (h : IsHeaderWord word) {c : Char}
    (hc : c ∈ word) : endsWord c = false :=
  endsWord_of_isIdentChar (h.ident c hc)

theorem IsHeaderWord.isWhiteSpace_eq_false {word : Text} (h : IsHeaderWord word) {c : Char}
    (hc : c ∈ word) : isWhiteSpace c = false :=
  (Bool.or_eq_false_iff.mp (h.endsWord_eq_false hc)).1

/-- Whole lines that detection passes over. -/
inductive Passed : Text → Prop where
  | nil : Passed []
  | line (a b : Text) (h : '\n' ∉ a) (ha : significant a = false) (hb : Passed b) :
    Passed (a ++ '\n' :: b)

/-- What may follow the header word: nothing, or a character that ends a word. -/
def FollowsWord (post : Text) : Prop := ∀ c ∈ post.head?, endsWord c = true

theorem FollowsWord.isWhiteSpace {post : Text} (h : FollowsWord post)
    (hs : post.head? ≠ some ';') : ∀ c ∈ post.head?, isWhiteSpace c = true := by
  intro c hc
  rcases Bool.or_eq_true_iff.mp (h c hc) with hw | hsemi
  · exact hw
  · rw [beq_iff_eq] at hsemi
    exact absurd (hsemi ▸ hc) hs

instance (post : Text) : Decidable (FollowsWord post) :=
  decidable_of_iff (post.head?.all endsWord = true) (by cases post <;> simp [FollowsWord])

/-- The start of a text up to the end of its header word. -/
structure Heading where
  /-- The lines above the header line. -/
  above : Text
  /-- The white space before the word. -/
  lead : Text
  word : Text
  above_passed : Passed above
  lead_blank : ∀ c ∈ lead, isWhiteSpace c = true
  lead_line : '\n' ∉ lead
  word_header : IsHeaderWord word

namespace Heading

/-- The characters of a heading. -/
def text (h : Heading) : Text := h.above ++ (h.lead ++ h.word)

/-- A text that starts with a heading. -/
def Opens (h : Heading) (t : Text) : Prop := ∃ post, t = h.text ++ post ∧ FollowsWord post

end Heading

/-! ## The header line -/

theorem firstWord_eq (t : Text) : firstWord t = t.takeWhile fun c => !endsWord c := rfl

theorem firstWord_append {word post : Text} (hw : IsHeaderWord word) (hp : FollowsWord post) :
    firstWord (word ++ post) = word := by
  have hpost : firstWord post = [] := by
    cases post with
    | nil => rfl
    | cons c rest =>
      have hc : endsWord c = true := hp c rfl
      rw [firstWord_eq, List.takeWhile_cons, hc]
      rfl
  have hword : ∀ c ∈ word, (!endsWord c) = true := by
    intro c hc
    rw [hw.endsWord_eq_false hc]
    rfl
  rw [firstWord_eq] at hpost ⊢
  rw [List.takeWhile_append_of_pos hword, hpost, List.append_nil]

/-- A line with a header word is significant, and the word is its first. -/
theorem header_line {lead word post : Text} (hl : ∀ c ∈ lead, isWhiteSpace c = true)
    (hw : IsHeaderWord word) (hp : FollowsWord post) :
    significant (lead ++ (word ++ post)) = true ∧
      wordOf? (lead ++ (word ++ post)) = some (String.ofList word) := by
  obtain ⟨c, rest, hcons⟩ := List.exists_cons_of_ne_nil hw.ne_nil
  have hmem : c ∈ word := by
    rw [hcons]
    exact List.mem_cons_self
  have hc : isWhiteSpace c = false := hw.isWhiteSpace_eq_false hmem
  have htrim : trim (lead ++ (word ++ post)) = trimEnd (word ++ post) := by
    rw [hcons, List.cons_append, trim_lead hl hc]
  have hfirst : firstWord (trim (lead ++ (word ++ post))) = word := by
    rw [htrim, firstWord_trimEnd, firstWord_append hw hp]
  have hne : trim (lead ++ (word ++ post)) ≠ [] := by
    intro he
    rw [he] at hfirst
    exact hw.ne_nil hfirst.symm
  have hcomment : (trim (lead ++ (word ++ post))).startsWith ['%', '%'] = false := by
    rw [htrim]
    obtain ⟨gone, hgone, -⟩ := exists_trimEnd (word ++ post)
    cases hs : trimEnd (word ++ post) with
    | nil => rfl
    | cons d more =>
      rw [hs, hcons] at hgone
      have hd : c = d := by simpa using congrArg List.head? hgone
      have hpercent : d ≠ '%' := by
        rintro rfl
        rw [hd] at hmem
        exact absurd (hw.ident _ hmem) (by decide)
      simp [startsWith, List.isPrefixOf, hpercent.symm]
  refine ⟨?_, ?_⟩
  · simp [significant, hne, hcomment]
  · rw [wordOf?, hfirst, if_neg (by simpa using hw.ne_nil)]

/-- A significant line with a first word, taken apart. -/
theorem exists_header_line {line : Text} {w : String} (hw : wordOf? line = some w) :
    ∃ lead post, line = lead ++ (w.toList ++ post) ∧ (∀ c ∈ lead, isWhiteSpace c = true) ∧
      FollowsWord post := by
  unfold wordOf? at hw
  split at hw
  · cases hw
  · have hword : w.toList = firstWord (line.dropWhile isWhiteSpace) := by
      rw [← Option.some.inj hw, String.toList_ofList, trim, firstWord_trimEnd]
      rfl
    refine ⟨line.takeWhile isWhiteSpace,
      (line.dropWhile isWhiteSpace).dropWhile fun c => !endsWord c, ?_, ?_, ?_⟩
    · rw [hword, firstWord_eq, List.takeWhile_append_dropWhile, List.takeWhile_append_dropWhile]
    · intro c hc
      exact List.mem_takeWhile_imp hc
    · intro c hc
      have hstop := List.head?_dropWhile_not (fun c => !endsWord c) (line.dropWhile isWhiteSpace)
      rw [Option.mem_def.mp hc] at hstop
      simpa using hstop

/-! ## Detection and headings -/

/-- A text with a header word opens with a heading of that word. -/
theorem exists_heading {t : Text} {w : String} (h : headerWord? t = some w)
    (hw : IsHeaderWord w.toList) : ∃ g : Heading, g.word = w.toList ∧ g.Opens t := by
  have single : ∀ {a : Text}, '\n' ∉ a → wordOf? a = some w → ∀ rest : Text,
      (∀ c ∈ rest.head?, c = '\n') →
      ∃ g : Heading, g.word = w.toList ∧ g.Opens (a ++ rest) := by
    intro a ha hword rest hrest
    obtain ⟨lead, post, rfl, hlead, hpost⟩ := exists_header_line hword
    refine ⟨⟨[], lead, w.toList, .nil, hlead, ?_, hw⟩, rfl, post ++ rest, ?_, ?_⟩
    · exact fun hm => ha (List.mem_append_left _ hm)
    · simp [Heading.text]
    · intro c hc
      cases post with
      | nil =>
        rw [hrest c hc]
        decide
      | cons d more => exact hpost c hc
  induction t using line_induction with
  | last a ha =>
    rw [headerWord?_of_not_mem ha] at h
    split at h
    · obtain ⟨g, hg, ho⟩ := single ha h [] (by simp)
      rw [List.append_nil] at ho
      exact ⟨g, hg, ho⟩
    · cases h
  | more a b ha ih =>
    rw [headerWord?_append ha] at h
    split at h
    · exact single ha h ('\n' :: b) (by simp)
    · rename_i hs
      obtain ⟨g, hg, post, rfl, hpost⟩ := ih h
      refine ⟨{ g with
        above := a ++ '\n' :: g.above
        above_passed := .line a g.above ha (by simpa using hs) g.above_passed },
        hg, post, ?_, hpost⟩
      simp [Heading.text]

/-- A text that opens with a heading has its word as header word. -/
theorem Heading.Opens.headerWord {g : Heading} {t : Text} (h : g.Opens t) :
    headerWord? t = some (String.ofList g.word) := by
  obtain ⟨post, rfl, hpost⟩ := h
  obtain ⟨above, lead, word, habove, hlead, hline, hword⟩ := g
  simp only [Heading.text]
  induction habove with
  | line a b ha hs _ ih =>
    have hassoc : a ++ '\n' :: b ++ (lead ++ word) ++ post =
        a ++ '\n' :: (b ++ (lead ++ word) ++ post) := by simp
    rw [hassoc, headerWord?_append ha, if_neg (by simp [hs])]
    exact ih
  | nil =>
    have hnl : '\n' ∉ lead ++ word := by
      intro hm
      rcases List.mem_append.mp hm with hm | hm
      · exact hline hm
      · exact absurd (hword.isWhiteSpace_eq_false hm) (by decide)
    rw [List.nil_append, List.append_assoc]
    rcases eq_line_or_append post with hno | ⟨a, b, ha, rfl⟩
    · obtain ⟨hs, hw⟩ := header_line hlead hword hpost
      rw [headerWord?_of_not_mem, if_pos hs, hw]
      simpa [hno] using hnl
    · have hpa : FollowsWord a := by
        intro c hc
        cases a with
        | nil => cases hc
        | cons d more => exact hpost c hc
      obtain ⟨hs, hw⟩ := header_line hlead hword hpa
      have hassoc : lead ++ (word ++ (a ++ '\n' :: b)) = lead ++ (word ++ a) ++ '\n' :: b := by simp
      rw [hassoc, headerWord?_append, if_pos hs, hw]
      simpa [ha] using hnl

end DiagramLint
