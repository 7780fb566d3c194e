-- The errors of the pie chart parser point at tokens it was given: a missing
-- colon just past a string, a misspelled keyword at a word.
import DiagramLint.Pie.Parser
import DiagramLint.Proofs.Parsing.Within
import DiagramLint.Proofs.Pie.Lexer
import DiagramLint.Proofs.Spelling

namespace DiagramLint.Pie

/-- What the parser may miss behind the header. -/
def expectations : List String :=
  ["a quoted label, 'title' or 'showData'", "':' after the label", "a number", "end of line"]

/-- The error is about tokens with a property: it names their images, and where a repair makes use
of its place, it points at one. Whatever else it says are words of the grammar. -/
def ParseError.From (P : Tok → Prop) : ParseError → Prop
  | .missingColon place => ∃ t, P t ∧ t.kind.isSolid = true ∧ place = t.endPlace
  | .misspelledKeyword place word suggestion =>
    ∃ t, P t ∧ t.kind.isSolid = true ∧ place = t.place ∧ word = t.image ∧ suggestion ∈ keywords
  | .unquotedLabel _ _ label =>
    ∃ words : Toks, (∀ t ∈ words, P t ∧ t.kind = .word) ∧
      label = " ".intercalate (words.map (·.image))
  | .unexpected _ _ found expected => ∃ t, P t ∧ found = described t ∧ expected ∈ expectations

/-- A reading that keeps to tokens with a property. -/
abbrev Keeps {α : Type} (P : Tok → Prop) (r : Read α) : Prop := r.Within P (ParseError.From P)

variable {P : Tok → Prop}

theorem allowsUnexpected_from (P : Tok → Prop) :
    AllowsUnexpected expectations (fun ts => ∀ t ∈ ts, P t) (ParseError.From P) :=
  fun t _ h _ hx => ⟨t, h t List.mem_cons_self, rfl, hx⟩

theorem from_singleton {e : ParseError} (h : e.From P) : ∀ e' ∈ [e], e'.From P := by
  intro e' he
  rw [List.mem_singleton.mp he]
  exact h

theorem refuse_keeps {α : Type} {expected : String} (hx : expected ∈ expectations) {ts : Toks}
    (h : ∀ t ∈ ts, P t) : Keeps P (refuse expected ts : Read α) :=
  refuse_leaves (shrinks_forall_mem P) (allowsUnexpected_from P) hx h

/-! ## Entries -/

theorem entryValue_keeps (label : String) (place : Position) {ts : Toks} (h : ∀ t ∈ ts, P t) :
    Keeps P (entryValue label place ts) := by
  unfold entryValue
  split
  · split
    · split
      · exact Reading.leaves_ok fun t hm => h t (List.mem_cons_of_mem _ hm)
      · exact refuse_keeps (by decide) h
    · exact refuse_keeps (by decide) h
  · exact refuse_keeps (by decide) h

theorem quotedEntry_keeps {t : Tok} (ht : P t) (hk : t.kind = .str) {ts : Toks}
    (h : ∀ t ∈ ts, P t) : Keeps P (quotedEntry t ts) := by
  unfold quotedEntry
  split
  · split
    · exact entryValue_keeps _ _ fun t hm => h t (List.mem_cons_of_mem _ hm)
    · split
      · refine (entryValue_keeps _ _ h).after (from_singleton ⟨t, ht, ?_, rfl⟩)
        rw [hk]
        rfl
      · exact refuse_keeps (by decide) h
  · exact refuse_keeps (by decide) h

theorem misspelled_mem {t : Tok} {ts : Toks} {word : String} (h : misspelled t ts = some word) :
    word ∈ keywords := by
  unfold misspelled at h
  split at h
  · cases h
  · exact nearestKeyword_mem h

theorem bareEntry_keeps {t : Tok} (ht : P t) (hk : t.kind = .word) {ts : Toks}
    (h : ∀ t ∈ ts, P t) : Keeps P (bareEntry t ts) := by
  unfold bareEntry
  split
  · rename_i word hword
    refine Reading.leaves_fail (recover_leaves (shrinks_forall_mem P) h)
      (from_singleton ⟨t, ht, ?_, rfl, rfl, misspelled_mem hword⟩)
    rw [hk]
    rfl
  · have hleft : ∀ t' ∈ ts.dropWhile (·.kind == .word), P t' := forall_mem_dropWhile h _
    have hwords : ∀ t' ∈ t :: ts.takeWhile (·.kind == .word), P t' ∧ t'.kind = .word := by
      refine List.forall_mem_cons.mpr ⟨⟨ht, hk⟩, fun t' hm => ?_⟩
      have hword := List.mem_takeWhile_imp (p := fun x : Tok => x.kind == Kind.word) hm
      exact ⟨h t' ((List.takeWhile_sublist _).subset hm), beq_iff_eq.mp hword⟩
    split
    · rename_i c rest hc
      rw [hc] at hleft
      split
      · exact (entryValue_keeps _ _ fun t hm => hleft t (List.mem_cons_of_mem _ hm)).after
          (from_singleton ⟨_, hwords, rfl⟩)
      · exact refuse_keeps (by decide) hleft
    · exact refuse_keeps (by decide) fun _ hm => by cases hm

/-! ## Statements -/

theorem titleText_mem {ts : Toks} (h : ∀ t ∈ ts, P t) : ∀ t ∈ (titleText ts).2, P t := by
  unfold titleText
  split
  · split
    · exact fun t hm => h t (List.mem_cons_of_mem _ hm)
    · exact h
  · exact h

theorem endLine_keeps {r : Read Part} (h : Keeps P r) : Keeps P (endLine r) :=
  endLine_leaves (shrinks_forall_mem P) (allowsUnexpected_from P) (by decide) h

theorem statement_keeps {t : Tok} (ht : P t) {ts : Toks} (h : ∀ t ∈ ts, P t) :
    Keeps P (statement t ts) := by
  unfold statement
  split
  · exact Reading.leaves_fail h (fun _ hm => by cases hm)
  · exact Reading.leaves_ok h
  · exact endLine_keeps (Reading.leaves_ok (titleText_mem h))
  · rename_i hk
    exact endLine_keeps ((quotedEntry_keeps ht hk h).map _)
  · rename_i hk
    exact endLine_keeps ((bareEntry_keeps ht hk h).map _)
  · refine endLine_keeps (Reading.leaves_fail (recover_leaves (shrinks_forall_mem P) h) ?_)
    exact from_singleton ⟨t, ht, rfl, by decide⟩

theorem statements_keep {ts : Toks} (h : ∀ t ∈ ts, P t) :
    ∀ item ∈ statements ts, ∀ e ∈ item.2, e.From P := by
  fun_induction statements ts with
  | case1 => exact fun _ hm => by cases hm
  | case2 => exact fun _ hm => by cases hm
  | case3 t rest hk ih =>
    have hst := statement_keeps (h t List.mem_cons_self)
      fun t hm => h t (List.mem_cons_of_mem _ hm)
    intro item hm
    rcases List.mem_cons.mp hm with rfl | hm
    · exact hst.errors
    · exact ih hst.rest item hm

/-! ## Charts -/

theorem parse_newlines {ts : Toks} (hn : ∀ t ∈ ts, t.kind = .newline) : parse ts = ⟨none, []⟩ := by
  have hs : ts.dropWhile (·.kind == .newline) = [] :=
    List.dropWhile_eq_nil_iff.mpr fun t hm => beq_iff_eq.mpr (hn t hm)
  rw [parse, hs]

/-- With the header first, the errors are about the tokens behind it. -/
theorem parse_headed {ts rest : Toks} {head : Tok}
    (hs : ts.dropWhile (·.kind == .newline) = head :: rest) (hk : head.kind = .header)
    (h : ∀ t ∈ rest, P t) : ∀ e ∈ (parse ts).errors, e.From P := by
  intro e he
  rw [parse, hs] at he
  simp only [hk, if_true] at he
  obtain ⟨item, hitem, he⟩ := List.mem_flatMap.mp he
  exact statements_keep h item hitem e he

theorem parse_keeps {nls : Toks} {head : Tok} {rest : Toks} (hn : ∀ t ∈ nls, t.kind = .newline)
    (hk : head.kind = .header) (h : ∀ t ∈ rest, P t) :
    ∀ e ∈ (parse (nls ++ head :: rest)).errors, e.From P :=
  parse_headed (dropWhile_append_cons (fun t hm => beq_iff_eq.mpr (hn t hm)) (by rw [hk]; rfl))
    hk h

/-- Whether there is a header or not, every error is about one of the tokens. -/
theorem parse_from {ts : Toks} (h : ∀ t ∈ ts, P t) :
    ∀ e ∈ (parse ts).errors, e.From P ∨
      ∃ t, P t ∧ e = .unexpected t.place t.width (described t) "'pie' header" := by
  intro e he
  cases hs : ts.dropWhile (·.kind == .newline) with
  | nil =>
    rw [parse, hs] at he
    cases he
  | cons head rest =>
    have hleft : ∀ t ∈ head :: rest, P t := by
      rw [← hs]
      exact forall_mem_dropWhile h _
    by_cases hk : head.kind = .header
    · exact .inl (parse_headed hs hk (List.forall_mem_cons.mp hleft).2 e he)
    · simp only [parse, hs, if_neg hk, unexpected, List.mem_singleton] at he
      exact .inr ⟨head, hleft head List.mem_cons_self, he⟩

/-- With a word first there is no chart, and the missing header is all that is reported. -/
theorem parse_headless {nls : Toks} {head : Tok} {rest : Toks}
    (hn : ∀ t ∈ nls, t.kind = .newline) (hk : head.kind = .word) :
    (parse (nls ++ head :: rest)).errors =
      [.unexpected head.place head.width (described head) "'pie' header"] := by
  rw [parse, dropWhile_append_cons (fun t hm => beq_iff_eq.mpr (hn t hm)) (by rw [hk]; rfl)]
  simp [hk, unexpected]
  rfl

end DiagramLint.Pie
