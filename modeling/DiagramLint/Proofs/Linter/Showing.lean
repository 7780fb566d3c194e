-- What diagnostics point at. A diagnostic made at a place inside a token
-- stays there when it is moved into the text, and the characters that it
-- spans on its line are those of the token.
import DiagramLint.Flowchart.Token
import DiagramLint.Grammar
import DiagramLint.Pie.Language
import DiagramLint.Proofs.Grammar.Stages
import DiagramLint.Proofs.Lexing.Faithful
import Mathlib.Data.List.Infix

namespace DiagramLint

open Text

/-! ## What a diagnostic shows -/

/-- The characters that a diagnostic spans, from its column on its line, are these. -/
def Diagnostic.Reads (t : Text) (d : Diagnostic) (x : Text) : Prop :=
  ∃ line, t.line? d.line = some line ∧ 1 ≤ d.column ∧
    (line.drop (d.column - 1)).take d.spanLength = x ∧ x.length = d.spanLength

/-- The codes of diagnostics that point at the characters they are about. -/
def showingCodes : List String :=
  [Code.arrowInvalid, Code.seqArrowInvalid, Code.labelEscapedQuote, Code.labelRawQuote,
    Code.labelParenInLabel, Code.shapeMismatchedCloser, Code.keywordMisspelled,
    Code.endWithoutBlock, Code.nodeIdReserved, Code.subgraphDuplicateId, Code.pieValueNegative,
    Code.pieValueZero]

/-- A diagnostic of one of these codes spans what its code is about. -/
inductive Diagnostic.Shows (t : Text) (d : Diagnostic) : Prop where
  | link {x : String} (hc : d.code = some Code.arrowInvalid) (hx : x ∈ ["->", "=>"])
    (h : d.Reads t x.toList)
  | arrow {x : String} (hc : d.code = some Code.seqArrowInvalid) (hx : x ∈ ["==>", "=>>", "=>"])
    (h : d.Reads t x.toList)
  | escapedQuote (hc : d.code = some Code.labelEscapedQuote) (h : d.Reads t ['\\', '"'])
  | rawQuote (hc : d.code = some Code.labelRawQuote) (h : d.Reads t ['"'])
  | parenthesis {c : Char} (hc : d.code = some Code.labelParenInLabel) (hx : c = '(' ∨ c = ')')
    (h : d.Reads t [c])
  | closer {found expected : String} (hc : d.code = some Code.shapeMismatchedCloser)
    (hm : d.message = "Shape closed with '" ++ found ++ "' but expected '" ++ expected ++ "'")
    (hx : found ∈ Flowchart.shapeClosers) (h : d.Reads t found.toList)
  | keyword {word suggestion : String} (hc : d.code = some Code.keywordMisspelled)
    (hm : d.message = "Unknown keyword '" ++ word ++ "', did you mean '" ++ suggestion ++ "'?")
    (h : d.Reads t word.toList)
  | strayEnd (hc : d.code = some Code.endWithoutBlock ∨ d.code = some Code.nodeIdReserved)
    (h : d.Reads t "end".toList)
  | duplicate (hc : d.code = some Code.subgraphDuplicateId) (h : d.Reads t "subgraph".toList)
  | value {l : Lexed Pie.Kind} {tok : Pie.Tok} {v : Binary64} (hl : Pie.tokenize t = .ok l)
    (hm : tok ∈ l.tokens) (hk : tok.kind = .number) (hv : Pie.numberValue? tok.image = some v)
    (hc : d.code = some Code.pieValueNegative ∧ v.isBelowZero = true ∨
      d.code = some Code.pieValueZero ∧ v.isZero = true)
    (hp : d.place = tok.place) (h : d.Reads t tok.image.toList)
  | other (hc : ∀ code ∈ showingCodes, d.code ≠ some code)

@[simp] theorem Diagnostic.spanLength_withLength (d : Diagnostic) (n : Nat) :
    (d.withLength n).spanLength = max n 1 := by
  simp [withLength, spanLength]

@[simp] theorem Diagnostic.spanLength_withHint (d : Diagnostic) (hint : String) :
    (d.withHint hint).spanLength = d.spanLength := rfl

/-! ## Places inside a token -/

section

variable {κ : Type} {t x : Text} {tok : Token κ} {d : Diagnostic} {k : Nat}

/-- The token's characters, of which there are some, stand on its line from its column on. -/
def Token.StandsIn (t : Text) (tok : Token κ) : Prop :=
  ∃ line, t.line? tok.line = some line ∧ 1 ≤ tok.column ∧ tok.image.toList ≠ [] ∧
    tok.image.toList <+: line.drop (tok.column - 1)

/-- Every token of a scan that comes to its end stands in the text, the line feeds and the end
apart. -/
theorem LexStep.Covers.standsIn {eof newline text : κ} {step : LexStep κ}
    (h : step.Covers eof newline text) {l : Lexed κ}
    (hl : Scan.run step eof (Reader.ofText t) = .finished l) (hm : tok ∈ l.tokens)
    (he : tok.kind ≠ eof) (hn : tok.kind ≠ newline) : tok.StandsIn t := by
  obtain ⟨s, before, m, n, hat, hlay, htok⟩ :=
    (h.run (Reader.ofText t) hl).exists_lays (Cursor.at_ofText t) tok hm he
  obtain ⟨hline, hcolumn, himage⟩ := hat.columns_eq hlay.pos (hlay.inline_le hn)
  rw [htok]
  refine ⟨_, hline, hcolumn, ?_, ?_⟩
  · rw [Token.ofText, String.toList_ofList, ← List.length_pos_iff, hlay.length_take]
    exact hlay.pos
  · rw [Token.ofText, String.toList_ofList, ← himage, List.drop_take]
    exact List.take_prefix _ _

/-- A diagnostic at a place of the text stays where it is. -/
theorem Diagnostic.clampTo_eq {line : Text} (hline : t.line? d.line = some line)
    (h1 : 1 ≤ d.column) (h2 : d.column ≤ line.length + 1) : d.clampTo t = d := by
  have hcontent := content_line_of_line? hline
  obtain ⟨hpos, hle⟩ : 0 < d.line ∧ d.line ≤ t.lineCount := by
    unfold line? at hline
    split at hline
    · cases hline
    · obtain ⟨l, hget, -⟩ := Option.map_eq_some_iff.mp hline
      obtain ⟨hlt, -⟩ := List.getElem?_eq_some_iff.mp hget
      unfold lineCount
      omega
  have hclamp : t.clamp d.place = d.place := by
    have hnumber : t.clampLine d.line = d.line := by
      unfold clampLine
      omega
    simp only [Text.clamp, Diagnostic.place, hnumber, Line.width, hcontent, Position.mk.injEq,
      true_and]
    omega
  rw [Diagnostic.clampTo, hclamp]
  rfl

/-- A diagnostic that is moved to a place is the same otherwise. -/
theorem Diagnostic.clampTo_of_place {p : Position} (h : (d.clampTo t).place = p) :
    d.clampTo t = { d with line := p.line, column := p.column } := by
  rw [← h]
  rfl

/-- A diagnostic made inside a token stays there and reads the characters of the token from there
on. -/
theorem Token.StandsIn.reads (h : tok.StandsIn t) (hl : d.line = max tok.line 1)
    (hc : d.column = max (tok.column + k) 1) (hx : x <+: tok.image.toList.drop k)
    (hlength : x.length = d.spanLength) :
    (d.clampTo t).place = ⟨tok.line, tok.column + k⟩ ∧ (d.clampTo t).Reads t x := by
  obtain ⟨line, hline, hcolumn, -, himage⟩ := h
  have hpos : 1 ≤ tok.line := by
    by_contra hzero
    rw [show tok.line = 0 by omega] at hline
    cases hline
  rw [Nat.max_eq_left hpos] at hl
  rw [Nat.max_eq_left (by omega)] at hc
  have hstarts : x <+: line.drop (d.column - 1) := by
    have hdrop := hx.trans (List.IsPrefix.drop himage k)
    rwa [List.drop_drop, show tok.column - 1 + k = d.column - 1 by omega] at hdrop
  have hwidth : d.column ≤ line.length := by
    have hle := hstarts.length_le
    have hspan : 1 ≤ d.spanLength := Nat.le_max_right _ _
    rw [List.length_drop] at hle
    omega
  rw [← hl] at hline
  rw [Diagnostic.clampTo_eq hline (by omega) (by omega)]
  refine ⟨by rw [Diagnostic.place, hl, hc], line, hline, by omega, ?_, hlength⟩
  rw [← hlength]
  exact (List.prefix_iff_eq_take.mp hstarts).symm

/-- A diagnostic made at a token, as long as the token, stays there and reads its image. -/
theorem Token.StandsIn.reads_image (h : tok.StandsIn t) (hl : d.line = max tok.line 1)
    (hc : d.column = max tok.column 1) (hlength : d.spanLength = max tok.image.length 1) :
    (d.clampTo t).place = tok.place ∧ (d.clampTo t).Reads t tok.image.toList := by
  refine h.reads (k := 0) hl hc List.prefix_rfl ?_
  obtain ⟨-, -, -, hne, -⟩ := h
  have hpos := List.length_pos_iff.mpr hne
  rw [hlength, ← String.length_toList]
  omega

end

/-! ## Every stage -/

theorem Diagnostic.shows_other {t : Text} {d : Diagnostic} {code : String}
    (hd : d.code = some code) (hc : code ∉ showingCodes) : d.Shows t := by
  refine .other fun own hown heq => ?_
  rw [hd, Option.some.injEq] at heq
  exact hc (heq ▸ hown)

namespace Grammar

variable {κ τ ε : Type} {g : Grammar κ τ ε} {t : Text} {options : LintOptions}
  {lexed : Lexed κ}

/-- What each stage of linting reports of a text with its tokens shows what it is about, once it is
moved into the text. -/
structure AllShow (g : Grammar κ τ ε) (t : Text) (options : LintOptions)
    (lexed : Lexed κ) : Prop where
  postLex : ∀ d ∈ hookDiagnostics (g.postLex t lexed.tokens), (d.clampTo t).Shows t
  errors : lexed.errors = [] → ∀ e ∈ (g.parse lexed.tokens).errors,
    ((g.explain e t).clampTo t).Shows t
  analysis : lexed.errors = [] → ∀ tree found,
    (g.parse lexed.tokens).tree = some tree →
    g.analyze tree lexed.tokens options = .ok found →
      ∀ d ∈ found, (d.clampTo t).Shows t
  postParse : ∀ tree prior, ∀ d ∈ hookDiagnostics (g.postParse t lexed.tokens tree prior),
    (d.clampTo t).Shows t

theorem AllShow.report (h : g.AllShow t options lexed) :
    ∀ d ∈ (g.report t options lexed).diagnostics, d.Shows t := by
  intro d hd
  obtain ⟨found, hfound, rfl⟩ := exists_finding_of_mem_report hd
  cases hfound with
  | lexical he => exact Diagnostic.shows_other rfl (by decide)
  | postLex hpost => exact h.postLex found hpost
  | parsing hclean he => exact h.errors hclean _ he
  | analysis hclean htree hok hmem => exact h.analysis hclean _ _ htree hok found hmem
  | failure => exact Diagnostic.shows_other rfl (by decide)
  | postParse tree prior hend => exact h.postParse tree prior found hend

end Grammar

end DiagramLint
