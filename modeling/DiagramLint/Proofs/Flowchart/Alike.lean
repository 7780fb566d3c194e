-- Readers of two texts that differ in links. The lexer looks at the token
-- before and at how far behind it is; where two readers agree in that, labels,
-- comments and words are read on both sides alike.
import DiagramLint.Proofs.Flowchart.Links
import DiagramLint.Proofs.Lexing.Clean

namespace DiagramLint.Flowchart

variable {x old new : Text}

/-! ## Readers of both texts -/

/-- How far a reader is behind the identifier that it has read last, in lines and columns. -/
def identGap (s : Reader Kind) : Option (Int × Int) :=
  s.previous.bind fun tok =>
    if tok.kind = .ident then
      some (s.cursor.line - tok.line, s.cursor.column - tok.endColumn)
    else none

/-- Two readers whose surroundings are the same to the lexer. -/
structure Alike (s r : Reader Kind) : Prop where
  context : WordContext.of r = WordContext.of s
  gap : identGap r = identGap s

theorem followsIdent_eq (s : Reader Kind) : followsIdent s = (identGap s == some (0, 0)) := by
  unfold followsIdent identGap
  cases s.previous with
  | none => rfl
  | some tok =>
    rw [Bool.eq_iff_iff]
    by_cases hk : tok.kind = .ident
    · simp [hk]
      omega
    · simp [hk]

/-- What a token tells the lexer about what comes behind it: whether a statement starts there, and
whether a direction can stand there. -/
def stance (tok : Tok) : Bool × Bool :=
  (tok.kind.isSeparator, tok.kind == .header || (tok.kind == .keyword && tok.image == "direction"))

theorem identGap_after {s : Reader Kind} {y : Yield Kind} {tok : Tok}
    (h : y.tokens.getLast? = some tok) (hk : tok.kind ≠ .ident) : identGap (s.after y) = none := by
  unfold identGap
  change (y.tokens.getLast?.or s.previous).bind _ = none
  rw [h]
  exact if_neg hk

namespace Alike

variable {s r : Reader Kind} {y y' : Yield Kind} {a b : Tok} {n : Nat}

theorem followsIdent_eq (h : Alike s r) : followsIdent r = followsIdent s := by
  rw [Flowchart.followsIdent_eq, Flowchart.followsIdent_eq, h.gap]

/-- Both readers pass some characters of a line that belong to no token. -/
theorem silent (h : Alike s r) (hs : '\n' ∉ s.cursor.rest.take n) (hn : n ≤ s.cursor.rest.length)
    (hr : '\n' ∉ r.cursor.rest.take n) (hm : n ≤ r.cursor.rest.length) :
    Alike (s.after (.nothing (s.cursor.skip n))) (r.after (.nothing (r.cursor.skip n))) := by
  have hgap : ∀ q : Reader Kind, '\n' ∉ q.cursor.rest.take n → n ≤ q.cursor.rest.length →
      identGap (q.after (.nothing (q.cursor.skip n))) =
        (identGap q).map fun gap => (gap.1, gap.2 + (n : Int)) := by
    intro q hq hlen
    have hplace := q.cursor.skip_place_of_not_mem hq hlen
    have hline : (q.cursor.skip n).line = q.cursor.line := congrArg Position.line hplace
    have hcolumn : (q.cursor.skip n).column = q.cursor.column + n :=
      congrArg Position.column hplace
    unfold identGap
    change (Option.or none q.previous).bind _ = _
    rw [Option.none_or]
    cases q.previous with
    | none => rfl
    | some tok =>
      by_cases hk : tok.kind = .ident
      · simp [hk, Reader.after, Yield.nothing, hline, hcolumn]
        omega
      · simp [hk]
  refine ⟨?_, ?_⟩
  · have hcontext : ∀ q : Reader Kind,
        WordContext.of (q.after (.nothing (q.cursor.skip n))) = WordContext.of q := by
      intro q
      simp [WordContext.of, Reader.follows, Reader.after, Yield.nothing]
    rw [hcontext, hcontext, h.context]
  · rw [hgap s hs hn, hgap r hr hm, h.gap]

/-- Both readers go on behind tokens that tell the lexer the same. -/
theorem behind (h : Alike s r) (ha : y.tokens.getLast? = some a) (hb : y'.tokens.getLast? = some b)
    (hstance : stance b = stance a) (hheader : y'.isHeader = y.isHeader)
    (hgap : identGap (r.after y') = identGap (s.after y)) :
    Alike (s.after y) (r.after y') := by
  refine ⟨?_, hgap⟩
  have hcontext : ∀ {q : Reader Kind} {z : Yield Kind} {tok : Tok},
      z.tokens.getLast? = some tok → WordContext.of (q.after z) =
        ⟨(stance tok).1, (stance tok).2, (WordContext.of q).headerSeen || z.isHeader⟩ := by
    intro q z tok htok
    have hprev : (q.after z).previous = some tok := by
      change z.tokens.getLast?.or q.previous = _
      rw [htok]
      rfl
    unfold WordContext.of Reader.follows
    rw [hprev]
    rfl
  rw [hcontext ha, hcontext hb, hstance, hheader, h.context]

/-- Both readers go on behind tokens of the same kinds, of which the last is no word. -/
theorem plain (h : Alike s r) (ha : y.tokens.getLast? = some a) (hb : y'.tokens.getLast? = some b)
    (hk : b.kind = a.kind) (hplain : a.kind ≠ .ident ∧ a.kind ≠ .keyword)
    (hheader : y'.isHeader = y.isHeader) : Alike (s.after y) (r.after y') := by
  refine h.behind ha hb ?_ hheader ?_
  · have hnone : (a.kind == .keyword) = false := beq_eq_false_iff_ne.mpr hplain.2
    simp [stance, hk, hnone]
  · rw [identGap_after ha hplain.1, identGap_after hb (hk ▸ hplain.1)]

end Alike

/-! ## Steps of both readers -/

/-- A step of one reader is like that of the other: it reports nothing either, stops before what
is left, and leaves the readers alike. -/
structure Keeps (s r : Reader Kind) (left : Text) (y y' : Yield Kind) : Prop where
  errors : y'.errors = []
  rest : y'.cursor.rest = left
  alike : Alike (s.after y) (r.after y')

section

variable {s r : Reader Kind} {a b : Cursor} {y z : Text}

theorem length_of_skip {n : Nat} (hn : n ≤ a.rest.length) (ha : a.rest = x ++ old)
    (hend : (a.skip n).rest = old) : n = x.length := by
  have hleft := congrArg List.length hend
  have hall := congrArg List.length ha
  rw [Cursor.skip_rest, List.length_drop] at hleft
  rw [List.length_append] at hall
  omega

theorem rest_skip_length (ha : a.rest = x ++ old) : (a.skip x.length).rest = old := by
  rw [Cursor.skip_rest, ha, List.drop_left]

theorem keeps_lexeme (h : Alike s r) (ha : s.cursor.rest = x ++ old) (hb : r.cursor.rest = x ++ new)
    {kind : Kind} (hk : kind ≠ .ident ∧ kind ≠ .keyword) {n : Nat} (hn : n ≤ s.cursor.rest.length)
    (hend : (lexeme kind n s.cursor).cursor.rest = old) :
    Keeps s r new (lexeme kind n s.cursor) (lexeme kind n r.cursor) := by
  obtain rfl := length_of_skip hn ha hend
  exact ⟨rfl, rest_skip_length hb, h.plain rfl rfl rfl hk rfl⟩

/-- Whether a parenthesis closes the shape that is opened so. -/
def parenCloses (opener : String) : Bool := (closerFor opener).toList.head? == some ')'

theorem label_unquoted {opener : String} (hhead : a.rest.head? ≠ some '"')
    (hz : labelText (parenCloses opener) 0 a.rest = z) (htake : a.rest.take z.length = z) :
    label opener a = if z.isEmpty then .nothing (a.skip z.length)
      else .token (Token.ofText .label z a.place) (a.skip z.length) := by
  unfold parenCloses at hz
  unfold label takeLabelText
  split
  · rename_i rest hrest
    exact absurd (by rw [hrest]; rfl) hhead
  · rw [hz]
    dsimp only [Cursor.take]
    rw [htake]

theorem label_quoted (opener : String) {image more : Text} (hrest : a.rest = '"' :: (image ++ more))
    (hread : Quoted.read (image ++ more) = .closed image)
    (hz : labelText (parenCloses opener) 0 more = z) :
    ∃ tok : Tok, tok.kind = .quotedLabel ∧
      label opener a = .token tok (a.skip (image.length + 1 + z.length)) := by
  have hbehind : (a.skip (image.length + 1)).rest = more := by
    rw [Cursor.skip_rest, hrest]
    exact List.drop_left
  unfold parenCloses at hz
  unfold label takeLabelText
  split
  · rename_i rest hcons
    obtain rfl : image ++ more = rest := (List.cons.inj (hrest.symm.trans hcons)).2
    rw [hread]
    dsimp only [Cursor.take]
    rw [hbehind, hz, Cursor.skip_skip]
    exact ⟨_, rfl, rfl⟩
  · rename_i hno
    exact absurd hrest (hno _)

/-- A label that is read without an error, and stops before `old`. -/
inductive LabelRead (opener : String) (old : Text) : Text → Prop where
  | quoted {image spill : Text} (hread : Quoted.read (image ++ (spill ++ old)) = .closed image)
    (hspill : labelText (parenCloses opener) 0 (spill ++ old) = spill) :
    LabelRead opener old ('"' :: (image ++ spill))
  | unquoted {z : Text} (hhead : (z ++ old).head? ≠ some '"')
    (hz : labelText (parenCloses opener) 0 (z ++ old) = z) : LabelRead opener old z

/-- The kinds of the tokens that a label yields. -/
def labelKinds (z : Text) : List Kind :=
  if z.isEmpty then [] else if z.head? = some '"' then [.quotedLabel] else [.label]

theorem exists_closed_of_label {opener : String} {rest : Text} (hrest : a.rest = '"' :: rest)
    (he : (label opener a).errors = []) : ∃ image, Quoted.read rest = .closed image := by
  unfold label at he
  split at he
  · rename_i rest' hcons
    obtain rfl : rest = rest' := (List.cons.inj (hrest.symm.trans hcons)).2
    split at he
    · cases he
    · rename_i image hread
      exact ⟨image, hread⟩
  · rename_i hno
    exact absurd hrest (hno _)

theorem labelRead_of_label {opener : String} (ha : a.rest = z ++ old)
    (he : (label opener a).errors = []) (hend : (label opener a).cursor.rest = old) :
    LabelRead opener old z := by
  by_cases hquote : a.rest.head? = some '"'
  · obtain ⟨rest, hrest⟩ := List.head?_eq_some_iff.mp hquote
    obtain ⟨image, hread⟩ := exists_closed_of_label hrest he
    obtain ⟨⟨more, rfl⟩, -, -⟩ := Quoted.read_closed hread
    obtain ⟨tok, hk, hlabel⟩ := label_quoted opener hrest hread rfl
    have hpre := labelText_isPrefix (parenCloses opener) 0 more
    generalize hspill : labelText (parenCloses opener) 0 more = spill at hlabel hpre
    obtain ⟨behind, rfl⟩ := hpre
    -- the label ends with what is spilled behind its closing mark
    have hall : a.rest = '"' :: (image ++ spill) ++ behind := by rw [hrest]; simp
    have hlength : image.length + 1 + spill.length = ('"' :: (image ++ spill)).length := by
      simp
      omega
    obtain rfl : behind = old := by
      rw [hlabel, hlength] at hend
      exact (rest_skip_length hall).symm.trans hend
    obtain rfl : '"' :: (image ++ spill) = z := List.append_cancel_right (hall.symm.trans ha)
    exact .quoted hread hspill
  · have hpre := labelText_isPrefix (parenCloses opener) 0 a.rest
    have hlabel := label_unquoted hquote rfl (List.prefix_iff_eq_take.mp hpre).symm
    generalize hy : labelText (parenCloses opener) 0 a.rest = y at hpre hlabel
    obtain ⟨more, hmore⟩ := hpre
    have hcursor : (label opener a).cursor = a.skip y.length := by
      rw [hlabel]
      split <;> rfl
    obtain rfl : more = old := by
      rw [hcursor] at hend
      exact (rest_skip_length hmore.symm).symm.trans hend
    obtain rfl : y = z := List.append_cancel_right (hmore.trans ha)
    rw [ha] at hquote hy
    exact .unquoted hquote hy

namespace LabelRead

variable {opener : String}

theorem label (h : LabelRead opener old z) (ha : a.rest = z ++ old) :
    (Flowchart.label opener a).errors = [] ∧ (Flowchart.label opener a).cursor.rest = old ∧
      (Flowchart.label opener a).tokens.map (·.kind) = labelKinds z := by
  cases h with
  | @quoted image spill hread hspill =>
    have hrest : a.rest = '"' :: (image ++ (spill ++ old)) := by rw [ha]; simp
    obtain ⟨tok, hk, hlabel⟩ := label_quoted opener hrest hread hspill
    have hlength : image.length + 1 + spill.length = ('"' :: (image ++ spill)).length := by
      simp
      omega
    rw [hlabel, hlength]
    refine ⟨rfl, rest_skip_length ha, ?_⟩
    change [tok.kind] = _
    rw [hk]
    rfl
  | unquoted hhead hz =>
    rw [← ha] at hhead hz
    rw [label_unquoted hhead hz (by rw [ha, List.take_left])]
    cases z with
    | nil => exact ⟨rfl, rest_skip_length ha, rfl⟩
    | cons c z =>
      refine ⟨rfl, rest_skip_length ha, ?_⟩
      rw [ha] at hhead
      exact (if_neg hhead).symm

/-- A label that is read is read as well before an arrow for a wrong link. -/
theorem kept (h : LabelRead opener old z) (hk : Kept old new) : LabelRead opener new z := by
  cases h with
  | quoted hread hspill => exact .quoted (Quoted.read_closed_append hread _) (hk.labelText hspill)
  | unquoted hhead hz =>
    refine .unquoted ?_ (hk.labelText hz)
    rwa [← hk.head?_of_labelText hz]

/-- A label does not stop before a link. -/
theorem not_swapped (h : LabelRead opener old z) : ¬ Swapped [] old new := by
  intro hs
  cases h with
  | quoted hread hspill => exact (hs.labelText hspill).1 rfl
  | unquoted hhead hz => exact (hs.labelText hz).1 rfl

end LabelRead

theorem label_isHeader (opener : String) (s : Cursor) : (label opener s).isHeader = false := by
  unfold label
  split
  · split
    · rfl
    · rfl
  · dsimp only
    split
    · rfl
    · rfl

theorem exists_getLast?_openShape (opener : String) (s : Cursor) :
    ∃ tok, (openShape opener s).tokens.getLast? = some tok :=
  ⟨_, List.getLast?_eq_some_getLast (List.cons_ne_nil _ _)⟩

theorem openShape_keeps (opener : String) (h : Alike s r) (hk : Kept old new)
    (ha : (s.cursor.skip opener.length).rest = z ++ old)
    (hb : (r.cursor.skip opener.length).rest = z ++ new)
    (he : (openShape opener s.cursor).errors = [])
    (hend : (openShape opener s.cursor).cursor.rest = old) :
    Keeps s r new (openShape opener s.cursor) (openShape opener r.cursor) := by
  have hread := labelRead_of_label ha he hend
  have hlabel := hread.label ha
  have hlabel' := (hread.kept hk).label hb
  refine ⟨hlabel'.1, hlabel'.2.1, ?_⟩
  have hkinds : (openShape opener r.cursor).tokens.map (·.kind) =
      (openShape opener s.cursor).tokens.map (·.kind) :=
    congrArg (Kind.shapeOpen :: ·) (hlabel'.2.2.trans hlabel.2.2.symm)
  obtain ⟨a, hlast⟩ := exists_getLast?_openShape opener s.cursor
  obtain ⟨b, hlast'⟩ := exists_getLast?_openShape opener r.cursor
  have hsame := congrArg List.getLast? hkinds
  rw [List.getLast?_map, List.getLast?_map, hlast, hlast'] at hsame
  refine h.plain hlast hlast' (Option.some.inj hsame) ?_
    ((label_isHeader opener _).trans (label_isHeader opener _).symm)
  rcases List.mem_cons.mp (List.mem_of_getLast? hlast) with hfirst | hmem
  · rw [hfirst]
    exact ⟨nofun, nofun⟩
  · have hrides := label_rides opener _ _ hmem
    constructor
    all_goals
      intro hkind
      rw [hkind] at hrides
      cases hrides

/-- The rest of a line is passed in both texts. -/
theorem comment_keeps (h : Alike s r) (hk : Kept old new) (ha : s.cursor.rest = x ++ old)
    (hb : r.cursor.rest = x ++ new) (hend : s.cursor.takeLine.2.rest = old) :
    Keeps s r new (.nothing s.cursor.takeLine.2) (.nothing r.cursor.takeLine.2) := by
  have hsplit := List.takeWhile_append_dropWhile (p := (· != '\n')) (l := s.cursor.rest)
  rw [Cursor.takeLine_rest] at hend
  have hx : s.cursor.rest.takeWhile (· != '\n') = x := by
    rw [hend] at hsplit
    exact List.append_cancel_right (hsplit.trans ha)
  have hall : ∀ c ∈ x, (c != '\n') = true := by
    rw [← hx]
    exact fun c hc => List.mem_takeWhile_imp (p := fun d => d != '\n') hc
  have hstop : ∀ c ∈ old.head?, (c != '\n') = false := by
    rw [← hend]
    exact head?_dropWhile_stops _ _
  have hhead := hk.head?_eq (fun hd => absurd (hstop _ hd) (by decide))
    (fun hd => absurd (hstop _ hd) (by decide))
  have hline : r.cursor.rest.takeWhile (· != '\n') = x := by
    rw [hb]
    exact takeWhile_append_of_stops hall (hhead ▸ hstop)
  have htake : ∀ {q : Cursor}, q.rest.takeWhile (· != '\n') = x →
      q.takeLine.2 = q.skip x.length := by
    rintro q rfl
    rfl
  have hinline : '\n' ∉ x := fun hm => absurd (hall _ hm) (by decide)
  rw [htake hx, htake hline]
  refine ⟨rfl, rest_skip_length hb, h.silent ?_ ?_ ?_ ?_⟩
  · rwa [ha, List.take_left]
  · rw [ha]
    simp
  · rwa [hb, List.take_left]
  · rw [hb]
    simp

/-! ## Words and what they take along -/

/-- Where only blanks are passed and the rest of the line is white, so it is in both texts. -/
theorem trailing_white_keeps (hk : Kept old new) (ha : a.rest = y ++ old) (hb : b.rest = y ++ new)
    (hwhite : ∀ c ∈ a.wholeLine, isWhiteSpace c = true)
    (hend : a.rest.dropWhile Cursor.isBlankChar = old) :
    old.head? ≠ some '-' ∧ old.head? ≠ some '=' ∧ (trailingText b).2.rest = new ∧
      (trailingText b).1 = [] := by
  have hlineA : a.wholeLine = (y ++ old).takeWhile (· != '\n') := by rw [Cursor.wholeLine, ha]
  have hlineB : b.wholeLine = (y ++ new).takeWhile (· != '\n') := by rw [Cursor.wholeLine, hb]
  have hy : a.rest.takeWhile Cursor.isBlankChar = y := by
    have hsplit := List.takeWhile_append_dropWhile (p := Cursor.isBlankChar) (l := a.rest)
    rw [hend] at hsplit
    exact List.append_cancel_right (hsplit.trans ha)
  have hblank : ∀ c ∈ y, Cursor.isBlankChar c = true := by
    rw [← hy]
    exact fun c hc => List.mem_takeWhile_imp hc
  have hpass : ∀ c ∈ y, (c != '\n') = true :=
    fun c hc => Cursor.ne_newline_of_isBlankChar (hblank c hc)
  rw [List.takeWhile_append_of_pos hpass] at hlineA hlineB
  have hleft : ∀ c ∈ old.takeWhile (· != '\n'), isWhiteSpace c = true :=
    fun c hc => hwhite c (by rw [hlineA]; exact List.mem_append_right _ hc)
  have hsign : ∀ c, isWhiteSpace c = false → (c != '\n') = true → old.head? ≠ some c := by
    intro c hc hn hhead
    obtain ⟨more, rfl⟩ := List.head?_eq_some_iff.mp hhead
    rw [hleft c (by simp [hn])] at hc
    cases hc
  have hdash := hsign '-' (by decide) (by decide)
  have hequal := hsign '=' (by decide) (by decide)
  have hwhite' : ∀ c ∈ b.wholeLine, isWhiteSpace c = true := by
    rwa [hlineB, hk.takeWhile_of_white hleft, ← hlineA]
  have hstop : ∀ c ∈ old.head?, Cursor.isBlankChar c = false := by
    rw [← hend]
    exact head?_dropWhile_stops _ _
  rcases b.trailingToken_cases Kind.text with ⟨-, hnone, hrest⟩ | ⟨⟨-, c, hc, hfill⟩, -, -⟩
  · refine ⟨hdash, hequal, ?_, hnone⟩
    rw [hb, dropWhile_append_of_stops hblank (hk.head?_eq hdash hequal ▸ hstop)] at hrest
    exact hrest
  · rw [hwhite' c hc] at hfill
    cases hfill

/-- Where the rest of the line is text, so it is in both texts. -/
theorem trailing_text_keeps (hk : Kept old new) (ha : a.rest = y ++ old) (hb : b.rest = y ++ new)
    (hfill : Filled a.wholeLine) (hend : a.rest.dropWhile (· != '\n') = old) :
    old.head? ≠ some '-' ∧ old.head? ≠ some '=' ∧ (trailingText b).2.rest = new ∧
      ∃ tok, (trailingText b).1 = [tok] ∧ tok.kind = .text := by
  have hlineB : b.wholeLine = (y ++ new).takeWhile (· != '\n') := by rw [Cursor.wholeLine, hb]
  have hy : a.wholeLine = y := by
    have hsplit := List.takeWhile_append_dropWhile (p := (· != '\n')) (l := a.rest)
    rw [hend] at hsplit
    exact List.append_cancel_right (hsplit.trans ha)
  have hpass : ∀ c ∈ y, (c != '\n') = true := by
    intro c hc
    rw [bne_iff_ne]
    rintro rfl
    exact hfill.1 (hy ▸ hc)
  have hstop : ∀ c ∈ old.head?, (c != '\n') = false := by
    rw [← hend]
    exact head?_dropWhile_stops _ _
  have hdash : old.head? ≠ some '-' := fun hd => absurd (hstop _ hd) (by decide)
  have hequal : old.head? ≠ some '=' := fun hd => absurd (hstop _ hd) (by decide)
  have hstop' : ∀ c ∈ new.head?, (c != '\n') = false := hk.head?_eq hdash hequal ▸ hstop
  rw [takeWhile_append_of_stops hpass hstop', ← hy] at hlineB
  rcases b.trailingToken_cases Kind.text with ⟨hwhite, -, -⟩ | ⟨-, htok, hrest⟩
  · obtain ⟨-, c, hc, hfilled⟩ := hfill
    rw [hwhite c (hlineB ▸ hc)] at hfilled
    cases hfilled
  · refine ⟨hdash, hequal, ?_, htok⟩
    rw [hb, dropWhile_append_of_stops hpass hstop'] at hrest
    exact hrest

/-- The rest of a line is text in both, or white space in both. -/
theorem trailing_keeps (hk : Kept old new) (ha : a.rest = y ++ old) (hb : b.rest = y ++ new)
    (hend : (trailingText a).2.rest = old) :
    old.head? ≠ some '-' ∧ old.head? ≠ some '=' ∧ (trailingText b).2.rest = new ∧
      ((trailingText a).1 = [] ∧ (trailingText b).1 = [] ∨
        ∃ tok tok', (trailingText a).1 = [tok] ∧ (trailingText b).1 = [tok'] ∧ tok.kind = .text ∧
          tok'.kind = .text) := by
  rcases a.trailingToken_cases Kind.text with
    ⟨hwhite, hnone, hrest⟩ | ⟨hfill, ⟨tok, htok, hkind⟩, hrest⟩
  · obtain ⟨hdash, hequal, hnew, hnone'⟩ :=
      trailing_white_keeps hk ha hb hwhite (hrest.symm.trans hend)
    exact ⟨hdash, hequal, hnew, .inl ⟨hnone, hnone'⟩⟩
  · obtain ⟨hdash, hequal, hnew, tok', htok', hkind'⟩ :=
      trailing_text_keeps hk ha hb hfill (hrest.symm.trans hend)
    exact ⟨hdash, hequal, hnew, .inr ⟨tok, tok', htok, htok', hkind, hkind'⟩⟩

/-- What a word yields that nothing comes along with. -/
def plainWord (kind : Kind) (image : Text) (s : Cursor) : Yield Kind where
  tokens := [Token.ofText kind image s.place]
  cursor := s.skip image.length
  isHeader := kind == .header

/-- What a word yields with the rest of its line. -/
def longWord (kind : Kind) (image : Text) (s : Cursor) : Yield Kind where
  tokens := Token.ofText kind image s.place :: (trailingText (s.skip image.length)).1
  cursor := (trailingText (s.skip image.length)).2

theorem word_eq {s : Reader Kind} {image : Text} (h : wordAt s.cursor.rest = image) :
    word s = if wordKind (.of s) (String.ofList image) = .keyword ∧
        textKeywords.contains (String.ofList image) = true then
      longWord (wordKind (.of s) (String.ofList image)) image s.cursor
    else plainWord (wordKind (.of s) (String.ofList image)) image s.cursor := by
  have htake : s.cursor.rest.take (wordAt s.cursor.rest).length = image := by
    rw [← h]
    exact (List.prefix_iff_eq_take.mp (wordAt_isPrefix _)).symm
  unfold word
  dsimp only [Cursor.take]
  rw [htake, h]
  simp only [Token.ofText, Bool.and_eq_true, beq_iff_eq]
  rfl

theorem plainWord_keeps (h : Alike s r) (kind : Kind) (ha : s.cursor.rest = x ++ old)
    (hb : r.cursor.rest = x ++ new) (hx : '\n' ∉ x) :
    Keeps s r new (plainWord kind x s.cursor) (plainWord kind x r.cursor) := by
  refine ⟨rfl, rest_skip_length hb, h.behind rfl rfl rfl rfl ?_⟩
  have hgap : ∀ {q : Reader Kind} {t : Text}, q.cursor.rest = x ++ t →
      identGap (q.after (plainWord kind x q.cursor)) =
        if kind = .ident then some (0, 0) else none := by
    intro q t hq
    have hplace := q.cursor.skip_place_of_not_mem (n := x.length)
      (by rwa [hq, List.take_left]) (by rw [hq]; simp)
    have hline : (q.cursor.skip x.length).line = q.cursor.line := congrArg Position.line hplace
    have hcolumn : (q.cursor.skip x.length).column = q.cursor.column + x.length :=
      congrArg Position.column hplace
    unfold identGap
    change Option.bind (some (Token.ofText kind x q.cursor.place)) _ = _
    simp [Token.ofText, Token.endColumn, Reader.after, plainWord, hline, hcolumn, Cursor.place]
  rw [hgap ha, hgap hb]

theorem longWord_keeps (h : Alike s r) (hk : Kept old new) {image : Text}
    (ha : s.cursor.rest = image ++ (y ++ old)) (hb : r.cursor.rest = image ++ (y ++ new))
    (hend : (longWord .keyword image s.cursor).cursor.rest = old) :
    Keeps s r new (longWord .keyword image s.cursor) (longWord .keyword image r.cursor) := by
  obtain ⟨-, -, hrest, hcases⟩ := trailing_keeps hk (rest_skip_length ha) (rest_skip_length hb) hend
  refine ⟨rfl, hrest, ?_⟩
  rcases hcases with ⟨hnone, hnone'⟩ | ⟨tok, tok', htok, htok', hkind, hkind'⟩
  · have hlast : (longWord .keyword image s.cursor).tokens.getLast? =
        some (Token.ofText .keyword image s.cursor.place) := by
      rw [longWord, hnone]
      rfl
    have hlast' : (longWord .keyword image r.cursor).tokens.getLast? =
        some (Token.ofText .keyword image r.cursor.place) := by
      rw [longWord, hnone']
      rfl
    refine h.behind hlast hlast' rfl rfl ?_
    rw [identGap_after hlast nofun, identGap_after hlast' nofun]
  · have hlast : (longWord .keyword image s.cursor).tokens.getLast? = some tok := by
      rw [longWord, htok]
      rfl
    have hlast' : (longWord .keyword image r.cursor).tokens.getLast? = some tok' := by
      rw [longWord, htok']
      rfl
    exact h.plain hlast hlast' (hkind'.trans hkind.symm) (by rw [hkind]; exact ⟨nofun, nofun⟩) rfl

/-- A step for a word passes the word, or the word and the rest of its line. -/
theorem word_cases (ha : s.cursor.rest = x ++ old) (hend : (word s).cursor.rest = old) :
    (wordAt s.cursor.rest = x ∧ ∃ kind, kind = wordKind (.of s) (String.ofList x) ∧
        ¬ (kind = .keyword ∧ textKeywords.contains (String.ofList x) = true)) ∨
      ∃ image y, wordAt s.cursor.rest = image ∧ x = image ++ y ∧
        wordKind (.of s) (String.ofList image) = .keyword ∧
        textKeywords.contains (String.ofList image) = true ∧
        (trailingText (s.cursor.skip image.length)).2.rest = old := by
  obtain ⟨z, hz⟩ := wordAt_isPrefix s.cursor.rest
  generalize himage : wordAt s.cursor.rest = image at hz
  rw [word_eq himage] at hend
  split at hend
  · rename_i hlong
    right
    obtain ⟨k, hmoves⟩ := (s.cursor.skip image.length).trailingToken_moves Kind.text
    obtain ⟨y, rfl⟩ : old <:+ z := by
      rw [← hend]
      change (Cursor.trailingToken Kind.text (s.cursor.skip image.length)).2.rest <:+ z
      rw [hmoves, Cursor.skip_rest, rest_skip_length hz.symm]
      exact List.drop_suffix _ _
    refine ⟨image, y, rfl, ?_, hlong.1, hlong.2, hend⟩
    rw [← List.append_assoc, ha] at hz
    exact (List.append_cancel_right hz).symm
  · rename_i hplain
    left
    obtain rfl : z = old := (rest_skip_length hz.symm).symm.trans hend
    obtain rfl : image = x := List.append_cancel_right (hz.trans ha)
    exact ⟨rfl, _, rfl, hplain⟩

theorem word_keeps (h : Alike s r) (hk : Kept old new) (ha : s.cursor.rest = x ++ old)
    (hb : r.cursor.rest = x ++ new) (hend : (word s).cursor.rest = old) :
    Keeps s r new (word s) (word r) := by
  have hkind : ∀ w, wordKind (.of r) w = wordKind (.of s) w := fun w => by rw [h.context]
  rcases word_cases ha hend with ⟨himage, kind, rfl, hplain⟩ |
    ⟨image, y, himage, rfl, hkey, htext, hbehind⟩
  · have himage' : wordAt r.cursor.rest = x := by
      rw [hb]
      exact hk.wordAt (ha ▸ himage)
    rw [word_eq himage, word_eq himage', hkind, if_neg hplain, if_neg hplain]
    refine plainWord_keeps h _ ha hb fun hm => ?_
    exact (wordAt_inline s.cursor.rest _ (himage ▸ hm)).1 rfl
  · -- the rest of the line belongs to the step as well, and no link comes behind it
    rw [List.append_assoc] at ha hb
    obtain ⟨hdash, hequal, -, -⟩ :=
      trailing_keeps hk (rest_skip_length ha) (rest_skip_length (a := r.cursor) hb) hbehind
    have himage' : wordAt r.cursor.rest = image := by
      rw [hb]
      exact (hk.append hdash hequal).wordAt (ha ▸ himage)
    rw [word_eq himage, word_eq himage', hkind, if_pos ⟨hkey, htext⟩, if_pos ⟨hkey, htext⟩, hkey]
    exact longWord_keeps h hk ha hb hbehind

end

end DiagramLint.Flowchart
