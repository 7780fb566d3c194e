-- The law of detection: a text that a dialect takes for its own opens, line
-- ends aside, with the header token of that dialect, and its parser never asks
-- for the header. Detection ends the header word at white space or at a
-- semicolon; the words of a pie chart run over semicolons, so a pie chart with
-- a semicolon right behind its header word has no header token.
import DiagramLint.Proofs.Flowchart.Blocks
import DiagramLint.Proofs.Linter.FreshLint
import DiagramLint.Proofs.Pie.Tiles
import DiagramLint.Proofs.Sequence.Blocks

namespace DiagramLint

open Text

/-! ## The line of the header word -/

/-- The line that detection reads: the first that is neither blank nor a comment, without the
white space around it. -/
def headerLine? (t : Text) : Option Text :=
  ((t.lines.map Line.content).find? significant).map trim

/-- The header line puts a semicolon right behind the word it starts with. -/
def joinsSemicolon (word t : Text) : Bool :=
  (headerLine? t).any (·.startsWith (word ++ [';']))

/-- Trimming the end takes nothing away up to a character that is no white space. -/
theorem exists_trimEnd_eq (a : Text) {c : Char} (hc : isWhiteSpace c = false) (rest : Text) :
    ∃ more, trimEnd (a ++ c :: rest) = a ++ c :: more := by
  unfold trimEnd dropEndWhile
  rw [List.reverse_append, List.reverse_cons, List.append_assoc, List.dropWhile_append]
  by_cases hrest : (rest.reverse.dropWhile isWhiteSpace).isEmpty = true
  · exact ⟨[], by simp [hrest, hc]⟩
  · exact ⟨(rest.reverse.dropWhile isWhiteSpace).reverse, by simp [hrest]⟩

namespace Heading

variable {g : Heading} {t post : Text}

/-- The header line from the header word on. -/
theorem headerLine?_of_line {tail : Text} {ls below : List Line} {start : Nat}
    (hls : ∀ l ∈ ls, significant l.content = false) (htail : FollowsWord tail)
    (h : t.lines = ls ++ ⟨start, g.lead ++ (g.word ++ tail)⟩ :: below) :
    headerLine? t = some (trimEnd (g.word ++ tail)) := by
  have hnone : (ls.map Line.content).find? significant = none := by
    rw [List.find?_eq_none]
    intro x hx
    obtain ⟨l, hl, rfl⟩ := List.mem_map.mp hx
    simp [hls l hl]
  have hline := (header_line g.lead_blank g.word_header htail).1
  unfold headerLine?
  rw [h, List.map_append, List.find?_append, hnone, List.map_cons, List.find?_cons, hline]
  obtain ⟨c, rest, hcons⟩ := List.exists_cons_of_ne_nil g.word_header.ne_nil
  have hc : isWhiteSpace c = false :=
    g.word_header.isWhiteSpace_eq_false (by rw [hcons]; exact List.mem_cons_self)
  simp [hcons, trim_lead g.lead_blank hc]

/-- The header line starts with the header word and a semicolon exactly when the text has a
semicolon behind the word. -/
theorem joinsSemicolon_iff (ht : t = g.text ++ post) (hpost : FollowsWord post) :
    joinsSemicolon g.word t = true ↔ post.head? = some ';' := by
  obtain ⟨ls, -, hpassed, hlines⟩ := g.above_passed.exists_lines 0
  obtain ⟨y, c, hconcat, hc⟩ := g.exists_word_concat
  have hafter : t.lines = ls ++ linesAt (0 + byteSize g.above) (g.lead ++ g.word ++ post) := by
    rw [lines_eq_linesAt, ht, text, List.append_assoc, hlines]
  by_cases hsemi : post.head? = some ';'
  · obtain ⟨more, rfl⟩ := List.head?_eq_some_iff.mp hsemi
    have hno : '\n' ∉ g.lead ++ g.word ++ [';'] := by simpa using g.newline_not_mem
    obtain ⟨tail, below, hfirst, -⟩ := exists_first_line (0 + byteSize g.above) hno
      (by simp) more
    have hsemicolon : FollowsWord (';' :: tail) := by
      intro d hd
      cases hd
      decide
    have hbehind : g.lead ++ g.word ++ [';'] ++ tail = g.lead ++ (g.word ++ ';' :: tail) := by
      simp
    rw [List.append_cons _ ';' more, hfirst, hbehind] at hafter
    have hline := g.headerLine?_of_line hpassed hsemicolon hafter
    obtain ⟨rest, hrest⟩ := exists_trimEnd_eq g.word (c := ';') (by decide) tail
    simp [joinsSemicolon, hline, hrest, startsWith]
  · obtain ⟨tail, below, hfirst, htail⟩ := exists_first_line (0 + byteSize g.above)
      g.newline_not_mem (getLast_ne_return y hconcat hc) post
    have hline := g.headerLine?_of_line (t := t) hpassed (hpost.of_isPrefix htail)
      (by rw [hafter, hfirst, List.append_assoc])
    rw [joinsSemicolon, hline]
    refine iff_of_false ?_ hsemi
    intro hjoins
    have hstarts : g.word ++ [';'] <+: g.word ++ tail :=
      (List.isPrefixOf_iff_prefix.mp hjoins).trans
        ⟨_, (exists_trimEnd (g.word ++ tail)).choose_spec.1.symm⟩
    obtain ⟨more, hmore⟩ := ((List.prefix_append_right_inj _).mp hstarts).trans htail
    exact hsemi (by rw [← hmore]; rfl)

end Heading

/-! ## The first token -/

/-- The kind of the first token that is no line end. -/
def firstKind? {κ : Type} [BEq κ] (newline : κ) (ts : List (Token κ)) : Option κ :=
  (ts.find? (·.kind != newline)).map (·.kind)

theorem firstKind?_of_split {κ : Type} [BEq κ] [LawfulBEq κ] {newline : κ}
    {nls rest : List (Token κ)} {head : Token κ} (hn : ∀ t ∈ nls, t.kind = newline)
    (hh : head.kind ≠ newline) : firstKind? newline (nls ++ head :: rest) = some head.kind := by
  have hnone : nls.find? (·.kind != newline) = none := by
    rw [List.find?_eq_none]
    intro t ht
    simp [hn t ht]
  have hsome : (head.kind != newline) = true := bne_iff_ne.mpr hh
  unfold firstKind?
  rw [List.find?_append, hnone, List.find?_cons, hsome]
  simp

/-- A lexer that comes to the end of a text with a heading has read the header first. If no error
behind a header asks for one, then none is asked for. -/
theorem Heading.Leads.opens {κ τ ε : Type} [BEq κ] [LawfulBEq κ] {newline header eof : κ}
    {solid : κ → Bool} {g : Heading} {t : Text} {ts : List (Token κ)} {asks : ε → Bool}
    {parse : List (Token κ) → Parsed τ ε} (h : g.Leads solid newline header t ts)
    (hend : Terminated eof ts) (he : eof ≠ newline) (hheader : header ≠ newline)
    (herrors : ∀ nls head rest, (∀ tok ∈ nls, tok.kind = newline) → head.kind = header →
      ∀ e ∈ (parse (nls ++ head :: rest)).errors, asks e = false) :
    firstKind? newline ts = some header ∧ (parse ts).errors.any asks = false := by
  cases h with
  | stalled hall => exact absurd hall (hend.not_all he)
  | headed hn hk _ _ =>
    constructor
    · rw [firstKind?_of_split hn (hk ▸ hheader), hk]
    · exact List.any_eq_false.mpr fun e hmem => by simp [herrors _ _ _ hn hk e hmem]

/-! ## Flowcharts -/

namespace Flowchart

/-- The parser asks for the header. -/
def ParseError.asksForHeader : ParseError → Bool
  | .unexpected _ _ _ expected => expected == "'flowchart' or 'graph' header"
  | _ => false

theorem asksForHeader_of_from {P : Tok → Prop} {e : ParseError} (h : e.From P) :
    e.asksForHeader = false := by
  cases e with
  | unexpected place length found expected =>
    obtain ⟨-, -, -, hmem⟩ := h
    exact beq_eq_false_iff_ne.mpr (ne_of_mem_of_not_mem hmem (by decide))
  | _ => rfl

/-- A text detected as a flowchart is read and parsed from its header on. -/
theorem opens_of_detects {t : Text} (h : Dialect.flowchart.detects t = true) :
    firstKind? .newline (tokenize t).tokens = some .header ∧
      (parse (tokenize t).tokens).errors.any ParseError.asksForHeader = false := by
  obtain ⟨g, hg, -, hw⟩ := Dialect.exists_heading_of_detects (by simp [Dialect.builtin]) h
  refine (leads hg hw).opens (terminated_tokenize t) (by decide) (by decide) ?_
  intro nls head rest hn hk e he
  exact asksForHeader_of_from ((parse_keeps (P := fun _ => True) hn hk fun _ _ => trivial).1 e he)

end Flowchart

/-! ## Sequence diagrams -/

namespace Sequence

/-- The parser asks for the header. -/
def ParseError.asksForHeader : ParseError → Bool
  | .unexpected _ _ _ expected => expected == "'sequenceDiagram' header"
  | _ => false

theorem asksForHeader_of_from {P : Tok → Prop} {e : ParseError} (h : e.From P) :
    e.asksForHeader = false := by
  cases e with
  | unexpected place length found expected =>
    obtain ⟨-, -, -, hmem⟩ := h
    exact beq_eq_false_iff_ne.mpr (ne_of_mem_of_not_mem hmem (by decide))
  | _ => rfl

/-- A text detected as a sequence diagram is read and parsed from its header on. -/
theorem opens_of_detects {t : Text} (h : Dialect.sequence.detects t = true) :
    firstKind? .newline (tokenize t).tokens = some .header ∧
      (parse (tokenize t).tokens).errors.any ParseError.asksForHeader = false := by
  obtain ⟨g, hg, -, hw⟩ := Dialect.exists_heading_of_detects (by simp [Dialect.builtin]) h
  refine (leads hg hw).opens (terminated_tokenize t) (by decide) (by decide) ?_
  intro nls head rest hn hk e he
  exact asksForHeader_of_from (parse_keeps (P := fun _ => True) hn hk (fun _ _ => trivial) e he)

end Sequence

/-! ## Pie charts -/

namespace Pie

/-- The parser asks for the header. -/
def ParseError.asksForHeader : ParseError → Bool
  | .unexpected _ _ _ expected => expected == "'pie' header"
  | _ => false

theorem asksForHeader_of_from {P : Tok → Prop} {e : ParseError} (h : e.From P) :
    e.asksForHeader = false := by
  cases e with
  | unexpected place length found expected =>
    obtain ⟨-, -, -, hmem⟩ := h
    exact beq_eq_false_iff_ne.mpr (ne_of_mem_of_not_mem hmem (by decide))
  | _ => rfl

/-- A text detected as a pie chart is read from its header on, unless a semicolon joins the header
word: then it is read from a word on, and the parser asks for the header. -/
theorem opens_of_detects {t : Text} (h : Dialect.pie.detects t = true) {l : Lexed Kind}
    (hl : scan t = .finished l) :
    firstKind? .newline l.tokens =
        some (if joinsSemicolon ['p', 'i', 'e'] t then .word else .header) ∧
      (parse l.tokens).errors.any ParseError.asksForHeader = joinsSemicolon ['p', 'i', 'e'] t := by
  obtain ⟨g, hg, -, hw⟩ := Dialect.exists_heading_of_detects (by simp [Dialect.builtin]) h
  have htokens : (scan t).lexed.tokens = l.tokens := by rw [hl]; rfl
  obtain ⟨post, ht, hpost⟩ := id hg
  have hjoins := Heading.joinsSemicolon_iff ht hpost
  rw [eq_pie hw] at hjoins
  by_cases hsemi : post.head? = some ';'
  · rw [hjoins.mpr hsemi]
    obtain ⟨more, rfl⟩ := List.head?_eq_some_iff.mp hsemi
    rcases leads_of_semicolon hw ht with hall | ⟨nls, head, rest, hts, hn, hk, -⟩
    · rw [htokens] at hall
      exact absurd hall ((lexStep_covers.terminated hl).not_all (by decide))
    · rw [← htokens, hts, parse_headless hn hk]
      refine ⟨?_, rfl⟩
      rw [firstKind?_of_split hn (by rw [hk]; decide), hk]
      rfl
  · have hspaced : joinsSemicolon ['p', 'i', 'e'] t = false := by
      rw [← Bool.not_eq_true, hjoins]
      exact hsemi
    have hleads := leads_of_space hg hw ht (hpost.isWhiteSpace hsemi)
    rw [htokens] at hleads
    rw [hspaced]
    refine hleads.opens (lexStep_covers.terminated hl) (by decide) (by decide) ?_
    intro nls head rest hn hk e he
    exact asksForHeader_of_from (parse_keeps (P := fun _ => True) hn hk (fun _ _ => trivial) e he)

end Pie

/-! ## The law -/

/-- Detection and lexing agree on the header. A text detected as a flowchart or as a sequence
diagram opens with its header token, line ends aside, and is never said to miss its header. So
does a text detected as a pie chart, as long as its lexer comes to an end and no semicolon joins
the header word; with one there, the word is no header and is said to be missing. -/
theorem detected_texts_open_with_their_header (t : Text) :
    (Dialect.flowchart.detects t = true →
      firstKind? .newline (Flowchart.tokenize t).tokens = some .header ∧
        (Flowchart.parse (Flowchart.tokenize t).tokens).errors.any
          Flowchart.ParseError.asksForHeader = false) ∧
    (Dialect.sequence.detects t = true →
      firstKind? .newline (Sequence.tokenize t).tokens = some .header ∧
        (Sequence.parse (Sequence.tokenize t).tokens).errors.any
          Sequence.ParseError.asksForHeader = false) ∧
    ∀ l, Dialect.pie.detects t = true → Pie.scan t = .finished l →
      firstKind? .newline l.tokens =
          some (if joinsSemicolon ['p', 'i', 'e'] t then .word else .header) ∧
        (Pie.parse l.tokens).errors.any Pie.ParseError.asksForHeader =
          joinsSemicolon ['p', 'i', 'e'] t :=
  ⟨Flowchart.opens_of_detects, Sequence.opens_of_detects,
    fun _ hdetects hscan => Pie.opens_of_detects hdetects hscan⟩

/-- A flowchart, a sequence diagram and a pie chart behind blank lines and comments. -/
def remarkedChart : Text := " \n%% all of it\r\n\tgraph;\r\nA --> B".toList

def remarkedDiagram : Text := "\r\n%%\n sequenceDiagram;\nA->>B: hi".toList

def remarkedPie : Text := "\n %% by hand\n pie title Pets\n\"Dogs\" : 1".toList

theorem remarked_texts_open_with_their_header :
    (Dialect.flowchart.detects remarkedChart = true ∧
      firstKind? .newline (Flowchart.tokenize remarkedChart).tokens = some .header) ∧
    (Dialect.sequence.detects remarkedDiagram = true ∧
      firstKind? .newline (Sequence.tokenize remarkedDiagram).tokens = some .header) ∧
    ∃ l, Dialect.pie.detects remarkedPie = true ∧ Pie.scan remarkedPie = .finished l ∧
      firstKind? .newline l.tokens = some .header := by
  have hchart : Dialect.flowchart.detects remarkedChart = true := by decide +kernel
  have hdiagram : Dialect.sequence.detects remarkedDiagram = true := by decide +kernel
  have hpie : Dialect.pie.detects remarkedPie = true := by decide +kernel
  have hspaced : joinsSemicolon ['p', 'i', 'e'] remarkedPie = false := by decide +kernel
  obtain ⟨l, hl⟩ := Pie.scan_finishes_of_all (t := remarkedPie) (by decide +kernel)
  have hopens := ((detected_texts_open_with_their_header remarkedPie).2.2 l hpie hl).1
  rw [hspaced] at hopens
  exact ⟨⟨hchart, ((detected_texts_open_with_their_header remarkedChart).1 hchart).1⟩,
    ⟨hdiagram, ((detected_texts_open_with_their_header remarkedDiagram).2.1 hdiagram).1⟩,
    l, hpie, hl, hopens⟩

/-- A pie chart is detected by a header word that its lexer reads as a part of a longer word. -/
theorem a_joined_semicolon_hides_the_header :
    ¬ ∀ t l, Dialect.pie.detects t = true → Pie.scan t = .finished l →
      firstKind? .newline l.tokens = some .header ∧
        (Pie.parse l.tokens).errors.any Pie.ParseError.asksForHeader = false := by
  intro h
  obtain ⟨l, hl⟩ := Pie.scan_finishes_of_all (t := "pie;".toList) (by decide +kernel)
  have hfirst := (h _ l (by decide +kernel) hl).1
  have htokens : firstKind? .newline (Pie.scan "pie;".toList).lexed.tokens = some .word := by
    decide +kernel
  rw [hl] at htokens
  cases hfirst.symm.trans htokens

end DiagramLint
