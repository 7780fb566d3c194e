-- The flowchart lexer covers its text: links, words and labels are as long as
-- they are found to be and never leave their line, every step moves on, and
-- lays tokens over what it passes, over blanks and comments apart.
import DiagramLint.Proofs.Flowchart.Lexer
import DiagramLint.Proofs.Lexing.Tiling

namespace DiagramLint.Flowchart

/-! ## Links -/

theorem runLength_le (c : Char) (t : Text) : runLength c t ≤ t.length :=
  (List.takeWhile_prefix _).length_le

theorem headLength_le (t : Text) : headLength t ≤ t.length := by
  unfold headLength
  split <;> simp

theorem lt_length_of_head?_drop {t : Text} {n : Nat} {c : Char} (h : (t.drop n).head? = some c) :
    n < t.length := by
  obtain ⟨rest, hrest⟩ := List.head?_eq_some_iff.mp h
  have hlen := congrArg List.length hrest
  rw [List.length_drop, List.length_cons] at hlen
  omega

theorem shaft?_length {t : Text} {n : Nat} (h : shaft? t = some n) : 0 < n ∧ n ≤ t.length := by
  have hdash := runLength_le '-' t
  have hequal := runLength_le '=' t
  unfold shaft? at h
  dsimp only at h
  split at h
  · cases h
    omega
  · split at h
    · cases h
      omega
    · split at h
      · rename_i hdots
        cases h
        have := lt_length_of_head?_drop hdots.2.2
        omega
      · cases h

theorem plainLink?_length {t : Text} {n : Nat} (h : plainLink? t = some n) :
    0 < n ∧ n ≤ t.length := by
  unfold plainLink? at h
  dsimp only at h
  split at h
  · rename_i shaft hshaft
    cases h
    obtain ⟨hpos, hle⟩ := shaft?_length hshaft
    generalize htail : (if t.head? = some '<' then 1 else 0) = tail at *
    have hhead := headLength_le (t.drop (tail + shaft))
    rw [List.length_drop] at hle hhead
    omega
  · split at h
    · cases h
      have := runLength_le '~' t
      omega
    · cases h

theorem closingHalf?_length {t : Text} {n : Nat} (h : closingHalf? t = some n) :
    0 < n ∧ n ≤ t.length := by
  have hdash := runLength_le '-' t
  have hequal := runLength_le '=' t
  have hdots := runLength_le '-' (t.drop 1)
  rw [List.length_drop] at hdots
  unfold closingHalf? at h
  dsimp only at h
  split at h
  · rename_i hend
    cases h
    have := lt_length_of_head?_drop hend.2
    omega
  · split at h
    · cases h
      omega
    · split at h
      · rename_i hend
        cases h
        have := lt_length_of_head?_drop hend.2
        omega
      · split at h
        · cases h
          omega
        · split at h
          · rename_i hdot
            split at h
            · rename_i hend
              cases h
              have := lt_length_of_head?_drop hend
              omega
            · cases h
              omega
          · cases h

theorem throughClosingHalf?_length {t : Text} {n : Nat} (h : throughClosingHalf? t = some n) :
    0 < n ∧ n ≤ t.length := by
  induction t generalizing n with
  | nil => cases h
  | cons c rest ih =>
    unfold throughClosingHalf? at h
    split at h
    · rename_i half hhalf
      cases h
      exact closingHalf?_length hhalf
    · split at h
      · cases h
      · obtain ⟨m, hm, rfl⟩ := Option.map_eq_some_iff.mp h
        have := ih hm
        rw [List.length_cons]
        omega

/-- A sign that a half of a link starts with, or that ends the search for one. -/
def StartsHalf (c : Char) : Prop := c = '-' ∨ c = '=' ∨ c = '.' ∨ c = '|' ∨ c = '\n'

/-- The number of blanks behind the opening half of a link. -/
def blanksBehind (t : Text) : Nat := ((t.drop 2).takeWhile fun c => c == ' ' || c == '\t').length

/-- The first `n` characters of a text are a link with text: an opening half, blanks, a text and a
closing half. Only behind two blanks the text may be empty, or start like a half. -/
inductive TextLink (t : Text) (n : Nat) : Prop where
  | plain {c : Char} {rest : Text} {m : Nat} (hopens : opensTextLink t = true)
    (hblanks : blanksBehind t ≠ 0) (hrest : t.drop (2 + blanksBehind t) = c :: rest)
    (hc : ¬StartsHalf c) (hm : throughClosingHalf? rest = some m)
    (hn : m + (2 + blanksBehind t + 1) = n)
  | marked {c : Char} {rest : Text} {m : Nat} (hopens : opensTextLink t = true)
    (hblanks : blanksBehind t ≠ 0) (htwo : blanksBehind t ≠ 1)
    (hrest : t.drop (2 + blanksBehind t) = c :: rest) (hc : StartsHalf c)
    (hm : throughClosingHalf? (c :: rest) = some m) (hn : m + (2 + blanksBehind t) = n)

theorem textLink?_eq_some_iff {t : Text} {n : Nat} : textLink? t = some n ↔ TextLink t n := by
  constructor
  · intro h
    unfold textLink? at h
    split at h
    · rename_i hopens
      dsimp only at h
      split at h
      · cases h
      · rename_i hblanks
        split at h
        · cases h
        · rename_i c rest hrest
          split at h
          · rename_i hc
            split at h
            · cases h
            · rename_i htwo
              obtain ⟨m, hm, hn⟩ := Option.map_eq_some_iff.mp h
              exact .marked hopens hblanks htwo hrest hc hm hn
          · rename_i hc
            obtain ⟨m, hm, hn⟩ := Option.map_eq_some_iff.mp h
            exact .plain hopens hblanks hrest hc hm hn
    · cases h
  · intro h
    unfold textLink?
    cases h with
    | plain hopens hblanks hrest hc hm hn =>
      unfold blanksBehind at hblanks hrest hn
      unfold StartsHalf at hc
      rw [if_pos hopens]
      dsimp only
      rw [if_neg hblanks, hrest]
      dsimp only
      rw [if_neg hc, hm, Option.map_some, hn]
    | marked hopens hblanks htwo hrest hc hm hn =>
      unfold blanksBehind at hblanks htwo hrest hn
      unfold StartsHalf at hc
      rw [if_pos hopens]
      dsimp only
      rw [if_neg hblanks, hrest]
      dsimp only
      rw [if_pos hc, if_neg htwo, hm, Option.map_some, hn]

theorem textLink?_length {t : Text} {n : Nat} (h : textLink? t = some n) :
    0 < n ∧ n ≤ t.length := by
  cases textLink?_eq_some_iff.mp h with
  | plain hopens hblanks hrest hc hm hn =>
    have hlen := congrArg List.length hrest
    rw [List.length_drop, List.length_cons] at hlen
    have := throughClosingHalf?_length hm
    omega
  | marked hopens hblanks htwo hrest hc hm hn =>
    have hlen := congrArg List.length hrest
    rw [List.length_drop] at hlen
    have := throughClosingHalf?_length hm
    omega

theorem invalidLink?_length {t : Text} {n : Nat} (h : invalidLink? t = some n) :
    0 < n ∧ n ≤ t.length := by
  unfold invalidLink? at h
  split at h
  · rename_i hstart
    cases h
    simp only [Text.startsWith, Bool.or_eq_true, List.isPrefixOf_iff_prefix] at hstart
    refine ⟨Nat.two_pos, ?_⟩
    rcases hstart with hstart | hstart
    · exact hstart.length_le
    · exact hstart.length_le
  · cases h

theorem linkAt?_length {t : Text} {kind : Kind} {n : Nat} (h : linkAt? t = some (kind, n)) :
    0 < n ∧ n ≤ t.length := by
  unfold linkAt? at h
  simp only [Option.or_eq_some_iff, Option.map_eq_some_iff, Prod.mk.injEq] at h
  rcases h with ⟨m, hm, -, rfl⟩ | ⟨-, ⟨m, hm, -, rfl⟩ | ⟨-, m, hm, -, rfl⟩⟩
  · exact textLink?_length hm
  · exact plainLink?_length hm
  · exact invalidLink?_length hm

/-! ## Words and labels -/

theorem wordAt_isPrefix (t : Text) : wordAt t <+: t := by
  induction t with
  | nil => exact List.prefix_rfl
  | cons c rest ih =>
    unfold wordAt
    split
    · exact (List.prefix_append_right_inj [c]).mpr ih
    · exact List.nil_prefix

theorem inline_of_ident {c : Char} (h : isIdentChar c = true ∨ c = '-') : c ≠ '\n' ∧ c ≠ '\r' := by
  have hwhite : isWhiteSpace c = false := by
    rcases h with h | rfl
    · rw [← Bool.not_eq_true]
      intro hw
      rw [isIdentChar_of_isWhiteSpace hw] at h
      cases h
    · decide
  constructor
  · rintro rfl
    exact absurd hwhite (by decide)
  · rintro rfl
    exact absurd hwhite (by decide)

theorem wordAt_inline (t : Text) : ∀ c ∈ wordAt t, c ≠ '\n' ∧ c ≠ '\r' := by
  induction t with
  | nil => exact fun c hc => by cases hc
  | cons d rest ih =>
    unfold wordAt
    split
    · rename_i hd
      simp only [Bool.or_eq_true, Bool.and_eq_true, beq_iff_eq] at hd
      intro c hc
      rcases List.mem_cons.mp hc with rfl | hc
      · exact inline_of_ident (hd.imp_right And.left)
      · exact ih c hc
    · exact fun c hc => by cases hc

theorem labelText_isPrefix (parenCloses : Bool) (depth : Nat) (t : Text) :
    labelText parenCloses depth t <+: t := by
  induction t generalizing depth with
  | nil => exact List.nil_prefix
  | cons c rest ih =>
    have hcons : ∀ depth, c :: labelText parenCloses depth rest <+: c :: rest :=
      fun depth => (List.prefix_append_right_inj [c]).mpr (ih depth)
    unfold labelText
    split
    · exact List.nil_prefix
    · split
      · exact List.nil_prefix
      · split
        · exact hcons _
        · split
          · exact hcons _
          · split
            · exact List.nil_prefix
            · exact hcons _

theorem labelText_inline (parenCloses : Bool) (depth : Nat) (t : Text) :
    ∀ c ∈ labelText parenCloses depth t, c ≠ '\n' ∧ c ≠ '\r' := by
  induction t generalizing depth with
  | nil => exact fun c hc => by cases hc
  | cons d rest ih =>
    have hnil : ∀ c ∈ ([] : Text), c ≠ '\n' ∧ c ≠ '\r' := fun c hc => by cases hc
    unfold labelText
    split
    · exact hnil
    · rename_i hd
      rw [not_or] at hd
      have hcons : ∀ depth, ∀ c ∈ d :: labelText parenCloses depth rest, c ≠ '\n' ∧ c ≠ '\r' := by
        intro depth c hc
        rcases List.mem_cons.mp hc with rfl | hc
        · exact hd
        · exact ih depth c hc
      split
      · exact hnil
      · split
        · exact hcons _
        · split
          · exact hcons _
          · split
            · exact hnil
            · exact hcons _

/-! ## The step -/

/-- A step that moves on and covers what it passes. -/
abbrev Passes (s : Cursor) (y : Yield Kind) : Prop := y.Passes .eof .newline .text s

variable {s : Cursor}

theorem passes_lexeme {kind : Kind} {n : Nat} (he : kind ≠ .eof) (hk : kind ≠ .newline)
    (hn : 0 < n) (hle : n ≤ s.restOfLine.length) : Passes s (lexeme kind n s) :=
  Yield.passes_token he (.inline hk hn hle)

/-- A quoted label and the text behind its closing quotation mark are one token. -/
theorem lays_quotedLabel {rest image : Text} (h : s.rest = '"' :: rest)
    (hread : Quoted.read rest = .closed image) (parenCloses : Bool) :
    let k := (labelText parenCloses 0 (s.skip (image.length + 1)).rest).length
    s.rest.take (image.length + 1 + k) =
        '"' :: (image ++ (s.skip (image.length + 1)).rest.take k) ∧
      s.Lays Kind.newline .text .quotedLabel (image.length + 1 + k) (image.length + 1 + k) := by
  intro k
  obtain ⟨⟨more, hmore⟩, hline, hlast⟩ := Quoted.read_closed hread
  have hall : s.rest = ('"' :: image) ++ more := by rw [h, ← hmore]; rfl
  have hskip : (s.skip (image.length + 1)).rest = more := by
    rw [Cursor.skip_rest, hall]
    exact List.drop_left
  have hspill : more.take k = labelText parenCloses 0 more := by
    have hpre := labelText_isPrefix parenCloses 0 more
    rw [← hskip] at hpre
    rw [← hskip]
    exact (List.prefix_iff_eq_take.mp hpre).symm
  have himage : s.rest.take (image.length + 1 + k) = ('"' :: image) ++ more.take k := by
    rw [hall, show image.length + 1 + k = ('"' :: image).length + k from rfl,
      List.take_length_add_append]
  have hlen : (('"' :: image) ++ more.take k).length = image.length + 1 + k := by
    rw [List.length_append, hspill, ← hskip]
    rfl
  have hinline := labelText_inline parenCloses 0 more
  rw [hskip]
  refine ⟨himage, .inline (by decide) (by omega) ?_⟩
  rw [← hlen]
  refine s.length_le_restOfLine ?_ ?_ ?_
  · rw [← himage]
    exact List.take_prefix _ _
  · rw [hspill]
    intro hm
    rcases List.mem_append.mp hm with hm | hm
    · exact hline (by simpa using hm)
    · exact (hinline _ hm).1 rfl
  · rw [hspill, List.getLast?_append, List.getLast?_cons, hlast]
    intro hr
    cases hend : (labelText parenCloses 0 more).getLast? with
    | none =>
      rw [hend] at hr
      exact absurd hr (by decide)
    | some c =>
      rw [hend] at hr
      cases hr
      exact (hinline _ (List.mem_of_getLast? hend)).2 rfl

/-- The rest of a label covers what it passes, which may be nothing. -/
theorem label_covers (opener : String) (s : Cursor) :
    (∃ k, (label opener s).cursor = s.skip k) ∧
      (label opener s).Covers .eof .newline .text s := by
  unfold label takeLabelText
  split
  · rename_i rest hrest
    split
    · rename_i image hread
      refine ⟨⟨_, rfl⟩, ?_⟩
      exact (Yield.passes_error _ (Nat.succ_pos _)).covers
    · rename_i image hread
      obtain ⟨himage, hlay⟩ :=
        lays_quotedLabel hrest hread ((closerFor opener).toList.head? == some ')')
      refine ⟨⟨_, Cursor.skip_skip s _ _⟩, ?_⟩
      intro lossy toks _ hafter
      dsimp only [Cursor.take, Yield.token] at hafter ⊢
      rw [Cursor.skip_skip] at hafter
      rw [← himage]
      exact .token (by decide) hlay hafter
  · dsimp only [Cursor.take]
    have hle := s.inline_length_le (labelText_isPrefix _ 0 _)
      (labelText_inline ((closerFor opener).toList.head? == some ')') 0 s.rest)
    generalize (labelText ((closerFor opener).toList.head? == some ')') 0 s.rest).length = k at hle
    split
    · rename_i hempty
      have hk : k = 0 := by
        have hlen : k ≤ s.rest.length := hle.trans s.restOfLine_isPrefix.length_le
        rw [List.isEmpty_iff, List.take_eq_nil_iff] at hempty
        rcases hempty with hk | hnil
        · exact hk
        · rw [hnil, List.length_nil] at hlen
          exact Nat.le_zero.mp hlen
      subst hk
      exact ⟨⟨0, rfl⟩, fun _ _ _ hafter => hafter⟩
    · rename_i htext
      have hpos : 0 < k := by
        refine Nat.pos_of_ne_zero ?_
        rintro rfl
        exact htext rfl
      refine ⟨⟨k, rfl⟩, ?_⟩
      exact (Yield.passes_token (by decide) (.inline (by decide) hpos hle)).covers

theorem passes_trailingText {kind : Kind} {n : Nat} (he : kind ≠ .eof)
    (hl : s.Lays Kind.newline .text kind n n) :
    Passes s { tokens := Token.ofText kind (s.rest.take n) s.place :: (trailingText (s.skip n)).1
               cursor := (trailingText (s.skip n)).2 } :=
  Yield.passes_trailing he (by decide) hl

theorem wordKind_cases (ctx : WordContext) (w : String) :
    wordKind ctx w ≠ .eof ∧ wordKind ctx w ≠ .newline := by
  unfold wordKind
  split
  · decide
  · split
    · decide
    · split <;> decide

theorem passes_word {r : Reader Kind} {c : Char} {rest : Text} (h : r.cursor.rest = c :: rest)
    (hc : isIdentChar c = true) : Passes r.cursor (word r) := by
  have hpos : 0 < (wordAt r.cursor.rest).length := by simp [h, wordAt, hc]
  have hle := r.cursor.inline_length_le (wordAt_isPrefix _) (wordAt_inline _)
  unfold word
  dsimp only [Cursor.take]
  obtain ⟨heof, hnewline⟩ := wordKind_cases (.of r)
    (String.ofList (r.cursor.rest.take (wordAt r.cursor.rest).length))
  split
  · exact passes_trailingText heof (.inline hnewline hpos hle)
  · exact (Yield.passes_token heof (.inline hnewline hpos hle)).header _

theorem passes_edgeLabel {rest : Text} (h : s.rest = '|' :: rest) : Passes s (edgeLabel s) := by
  unfold edgeLabel
  dsimp only
  split
  · rename_i hlt
    exact passes_lexeme (by decide) (by decide) (Nat.succ_pos _) hlt
  · refine Yield.passes_error _ ?_
    simp [h]

/-- A class and its name are on the line. -/
theorem classRef_length_le (h : s.restOfLine.startsWith [':', ':', ':'] = true) :
    3 + ((s.rest.drop 3).takeWhile fun c => isIdentChar c || c == '-').length ≤
      s.restOfLine.length := by
  obtain ⟨more, hmore⟩ := (List.isPrefixOf_iff_prefix.mp h).trans s.restOfLine_isPrefix
  have hdrop : s.rest.drop 3 = more := by rw [← hmore]; rfl
  rw [hdrop, Nat.add_comm]
  have hall : [':', ':', ':'] ++ more.takeWhile (fun c => isIdentChar c || c == '-') <+: s.rest := by
    rw [← hmore]
    exact (List.prefix_append_right_inj _).mpr (List.takeWhile_prefix _)
  refine s.inline_length_le hall ?_
  intro c hc
  rcases List.mem_append.mp hc with hc | hc
  · have hcolon : c = ':' := by simpa using hc
    rw [hcolon]
    decide
  · exact inline_of_ident (by simpa using List.mem_takeWhile_imp hc)

theorem passes_classRef (h : s.restOfLine.startsWith [':', ':', ':'] = true) :
    Passes s (lexeme .classRef
      (3 + ((s.rest.drop 3).takeWhile fun c => isIdentChar c || c == '-').length) s) :=
  passes_lexeme (by decide) (by decide) (by omega) (classRef_length_le h)

theorem passes_shapeOpen {opener : String}
    (h : bracketAt? shapeOpeners s.restOfLine = some opener) :
    Passes s { label opener (s.skip opener.length) with
      tokens := Token.ofText .shapeOpen (s.rest.take opener.length) s.place ::
        (label opener (s.skip opener.length)).tokens } := by
  obtain ⟨hpos, hle⟩ := length_of_find?_startsWith h (by decide)
  obtain ⟨⟨k, hk⟩, hcovers⟩ := label_covers opener (s.skip opener.length)
  refine ⟨⟨opener.length + k, by omega, by rw [hk, Cursor.skip_skip]⟩, ?_⟩
  intro lossy toks hl hrest
  exact .token (by decide) (.inline (by decide) hpos hle) (hcovers lossy toks hl hrest)

theorem passes_wideToken {r : Reader Kind} {c : Char} {rest : Text} (h : r.cursor.rest = c :: rest) :
    Passes r.cursor (wideToken r c) := by
  unfold wideToken
  dsimp only
  split
  · rename_i hclass
    exact passes_classRef hclass
  · split
    · rename_i kind n hlink
      obtain ⟨hpos, hle⟩ := linkAt?_length hlink
      refine passes_lexeme ?_ ?_ hpos hle
      · rcases linkAt?_kind hlink with rfl | rfl <;> decide
      · rcases linkAt?_kind hlink with rfl | rfl <;> decide
    · split
      · exact Yield.passes_error _ Nat.one_pos
      · split
        · rename_i opener hopener
          exact passes_shapeOpen hopener
        · split
          · rename_i closer hcloser
            obtain ⟨hpos, hle⟩ := length_of_find?_startsWith hcloser (by decide)
            exact passes_lexeme (by decide) (by decide) hpos hle
          · split
            · rename_i hc
              exact passes_word h hc
            · exact Yield.passes_error _ Nat.one_pos

theorem lexStep_passes (r : Reader Kind) (hr : r.cursor.rest ≠ []) :
    Passes r.cursor (lexStep r) := by
  unfold lexStep
  split
  · rename_i hnil
    exact absurd hnil hr
  · rename_i c rest hrest
    have hhead : r.cursor.rest.head? = some c := by rw [hrest]; rfl
    split
    · rename_i hb
      exact Yield.passes_gap (.blank hhead hb)
    · rename_i hb
      split
      · rename_i hn
        rw [hn] at hhead
        exact Yield.passes_token (by decide) (.lineFeed hhead)
      · rename_i hn
        have hone := Cursor.one_le_restOfLine hrest (Bool.eq_false_iff.mpr hb) hn
        split
        · rename_i hcomment
          exact Yield.passes_gap (Cursor.gap_of_percent hrest hcomment)
        · split
          · exact passes_lexeme (by decide) (by decide) Nat.one_pos hone
          · split
            · exact passes_lexeme (by decide) (by decide) Nat.one_pos hone
            · split
              · rename_i hbar
                rw [hbar] at hrest
                exact passes_edgeLabel hrest
              · exact passes_wideToken hrest

theorem scan_finishes (t : Text) : ∃ l, scan t = .finished l := by
  refine Scan.exists_finished (P := fun _ => True) ?_ Kind.eof (Reader.ofText t) trivial
  intro r _ hr
  exact ⟨(lexStep_passes r hr).moves, trivial⟩

theorem scan_eq_finished (t : Text) : scan t = .finished (tokenize t) := by
  obtain ⟨l, hl⟩ := scan_finishes t
  rw [tokenize, hl]
  rfl

theorem lexStep_covers : LexStep.Covers .eof .newline .text lexStep :=
  fun r hr _ => (lexStep_passes r hr).covers

end DiagramLint.Flowchart
