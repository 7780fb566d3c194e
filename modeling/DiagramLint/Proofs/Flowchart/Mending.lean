-- The safe repair of wrong links in a flowchart. A wrong link gives way to an
-- arrow, and the lexer reads on both sides of it what it read before, as long
-- as no link before a wrong one on its line could take a text along, and no
-- link and no class stands right before it.
import DiagramLint.Proofs.Flowchart.Alike
import DiagramLint.Proofs.Flowchart.Showing
import DiagramLint.Proofs.Lexing.Mending
import DiagramLint.Proofs.Lexing.Turns
import DiagramLint.Proofs.Linter.Codes
import DiagramLint.Proofs.Repair.Convergence

namespace DiagramLint.Flowchart

variable {x old new : Text}

section

variable {s r : Reader Kind} {a b : Cursor} {y z : Text}

/-! ## Whole steps -/

theorem lexStep_blank {c : Char} {t : Text} (hr : r.cursor.rest = c :: t)
    (hc : Cursor.isBlankChar c = true) : lexStep r = .nothing r.cursor.next := by
  unfold lexStep
  rw [hr]
  simp [hc]

/-- With a sign or a character of a word a step reads a wide token. -/
theorem lexStep_wide {c : Char} {t : Text} (hr : r.cursor.rest = c :: t)
    (hc : (isSign c || isIdentChar c) = true) : lexStep r = wideToken r c := by
  have hnot : [' ', '\t', '\r', '\n', '%', ';', '&', '|'].contains c = false :=
    contains_eq_false_of_all (p := fun c => isSign c || isIdentChar c) (by decide) hc
  simp only [List.contains_cons, List.contains_nil, Bool.or_false, Bool.or_eq_false_iff] at hnot
  obtain ⟨hspace, htab, hreturn, hline, hpercent, hsemi, hamp, hbar⟩ := hnot
  refine lexStep_eq_wideToken hr ?_ (beq_eq_false_iff_ne.mp hline) ?_
  · simp only [Cursor.isBlankChar, hspace, htab, hreturn, Bool.or_false]
  · simp only [List.contains_cons, List.contains_nil, hpercent, hsemi, hamp, hbar, Bool.or_false]

theorem exists_restOfLine_wide {c : Char} {t : Text} (hr : a.rest = c :: t)
    (hc : (isSign c || isIdentChar c) = true) : ∃ line, a.restOfLine = c :: line := by
  have hnot : ['\n', '\r'].contains c = false :=
    contains_eq_false_of_all (p := fun c => isSign c || isIdentChar c) (by decide) hc
  simp only [List.contains_cons, List.contains_nil, Bool.or_false, Bool.or_eq_false_iff,
    beq_eq_false_iff_ne] at hnot
  exact Cursor.exists_restOfLine hr hnot.1 hnot.2

theorem lexStep_classRef {c : Char} {t : Text} (hr : r.cursor.rest = c :: t)
    (h : r.cursor.restOfLine.startsWith [':', ':', ':'] = true) :
    lexStep r = lexeme .classRef
      (3 + ((r.cursor.rest.drop 3).takeWhile fun c => isIdentChar c || c == '-').length)
      r.cursor := by
  have hcolon : c = ':' := by
    obtain ⟨more, hmore⟩ := (List.isPrefixOf_iff_prefix.mp h).trans r.cursor.restOfLine_isPrefix
    exact (List.cons.inj (hr.symm.trans hmore.symm)).1
  rw [lexStep_wide hr (by rw [hcolon]; decide), wideToken]
  dsimp only
  rw [if_pos h]

theorem lexStep_link {c : Char} {t : Text} (hr : r.cursor.rest = c :: t) {kind : Kind} {n : Nat}
    (h : linkAt? r.cursor.restOfLine = some (kind, n)) : lexStep r = lexeme kind n r.cursor := by
  have hc : ['-', '=', '<', '~'].contains c = true := by
    rw [← Bool.not_eq_false]
    intro hnot
    cases hline : r.cursor.restOfLine with
    | nil =>
      rw [hline] at h
      cases h
    | cons d line =>
      obtain rfl : d = c := by
        have hhead := Cursor.head?_restOfLine hline
        rw [hr] at hhead
        exact (Option.some.inj hhead).symm
      rw [hline, linkAt?_of_not_contains hnot] at h
      cases h
  obtain ⟨hwide, hcolon⟩ : (isSign c || isIdentChar c) = true ∧ c ≠ ':' := by
    simp only [List.contains_cons, List.contains_nil, Bool.or_false, Bool.or_eq_true,
      beq_iff_eq] at hc
    rcases hc with rfl | rfl | rfl | rfl
    all_goals decide
  obtain ⟨line, hline⟩ := exists_restOfLine_wide hr hwide
  rw [lexStep_wide hr hwide, wideToken]
  dsimp only
  rw [if_neg (by rw [hline, startsWith_cons_of_ne hcolon]; exact Bool.false_ne_true), h]

/-- Signs on their own are the first characters of what is left of the line. -/
theorem restOfLine_of_signs {signs t : Text} (hr : a.rest = signs ++ t)
    (hs : ∀ c ∈ signs, isLinkChar c = true) : a.restOfLine = signs ++ Cursor.lineRest t := by
  unfold Cursor.restOfLine
  rw [hr, Cursor.lineRest_append]
  · intro hm
    exact absurd (hs _ hm) (by decide)
  · rintro c hc rfl
    exact absurd (hs _ (List.mem_of_getLast? hc)) (by decide)

theorem lexStep_wrongLink {w t : Text} (hw : w ∈ wrongLinks) (hr : r.cursor.rest = w ++ t) :
    lexStep r = lexeme .invalidLink 2 r.cursor := by
  have hline := restOfLine_of_signs hr (forall_mem_wrongLink hw)
  obtain ⟨c, rfl, -⟩ := exists_wrongLink hw
  exact lexStep_link (c := c) hr (by rw [hline, linkAt?_wrongLink hw])

theorem lexStep_arrow {t : Text} (hr : r.cursor.rest = ['-', '-', '>'] ++ t) :
    lexStep r = lexeme .link 3 r.cursor := by
  have hline := restOfLine_of_signs hr (by simp [isLinkChar])
  exact lexStep_link (c := '-') hr (by rw [hline]; exact linkAt?_arrow _)

/-- A bracket on the line starts with the next character. -/
theorem head_of_bracketAt? {brackets : List String} {p : Char → Bool}
    (hp : ∀ b ∈ brackets, b.toList.head?.any p = true) {c : Char} {t : Text}
    (hr : a.rest = c :: t) {bracket : String}
    (h : bracketAt? brackets a.restOfLine = some bracket) : p c = true := by
  obtain ⟨hmem, hpre⟩ := bracketAt?_eq_some h
  obtain ⟨d, hd, hpd⟩ := (Option.any_eq_true _ _).mp (hp bracket hmem)
  obtain ⟨more, hmore⟩ := List.head?_eq_some_iff.mp hd
  obtain ⟨rest, hrest⟩ := hpre.trans a.restOfLine_isPrefix
  rw [hmore, hr] at hrest
  exact (List.cons.inj hrest).1 ▸ hpd

/-- Where no link and no class can start, a wide token is a bracket or a word. -/
theorem wideToken_bracket {c : Char} {t : Text} (hr : r.cursor.rest = c :: t)
    (hc : ['(', '[', '{', '>', ')', ']', '}'].contains c = true) :
    (∃ line, r.cursor.restOfLine = c :: line) ∧
      lexStep r = wideToken r c ∧ r.cursor.restOfLine.startsWith [':', ':', ':'] = false ∧
      linkAt? r.cursor.restOfLine = none := by
  obtain ⟨hwide, hcolon, hlink⟩ : (isSign c || isIdentChar c) = true ∧ c ≠ ':' ∧
      ['-', '=', '<', '~'].contains c = false := by
    simp only [List.contains_cons, List.contains_nil, Bool.or_false, Bool.or_eq_true,
      beq_iff_eq] at hc
    rcases hc with rfl | rfl | rfl | rfl | rfl | rfl | rfl
    all_goals decide
  obtain ⟨line, hline⟩ := exists_restOfLine_wide hr hwide
  refine ⟨⟨line, hline⟩, lexStep_wide hr hwide, ?_, ?_⟩
  · rw [hline, startsWith_cons_of_ne hcolon]
  · rw [hline, linkAt?_of_not_contains hlink]

theorem lexStep_shapeOpen {c : Char} {t : Text} (hr : r.cursor.rest = c :: t) {opener : String}
    (h : bracketAt? shapeOpeners r.cursor.restOfLine = some opener)
    (hg : c = '>' → followsIdent r = true) : lexStep r = openShape opener r.cursor := by
  have hc := head_of_bracketAt? (p := ['(', '[', '{', '>', ')', ']', '}'].contains) (by decide) hr h
  obtain ⟨-, hstep, hclass, hlink⟩ := wideToken_bracket hr hc
  rw [hstep, wideToken]
  dsimp only
  rw [hclass, if_neg Bool.false_ne_true, hlink]
  dsimp only
  rw [if_neg (by simpa using hg), h]
  rfl

theorem lexStep_shapeClose {c : Char} {t : Text} (hr : r.cursor.rest = c :: t) {closer : String}
    (h : bracketAt? shapeClosers r.cursor.restOfLine = some closer) :
    lexStep r = lexeme .shapeClose closer.length r.cursor := by
  have hc := head_of_bracketAt? (p := [')', ']', '}'].contains) (by decide) hr h
  obtain ⟨hany, hgreater, hopen⟩ : ['(', '[', '{', '>', ')', ']', '}'].contains c = true ∧ c ≠ '>' ∧
      ['(', '[', '{', '>'].contains c = false := by
    simp only [List.contains_cons, List.contains_nil, Bool.or_false, Bool.or_eq_true,
      beq_iff_eq] at hc
    rcases hc with rfl | rfl | rfl
    all_goals decide
  obtain ⟨⟨line, hline⟩, hstep, hclass, hlink⟩ := wideToken_bracket hr hany
  have hopeners : bracketAt? shapeOpeners r.cursor.restOfLine = none := by
    rw [hline, bracketAt?_of_head (by decide) hopen]
  rw [hstep, wideToken]
  dsimp only
  rw [hclass, if_neg Bool.false_ne_true, hlink]
  dsimp only
  rw [if_neg (fun hg => hgreater hg.1), hopeners]
  dsimp only
  rw [h]

theorem lexStep_word_of_isIdentChar {c : Char} {t : Text} (hr : r.cursor.rest = c :: t)
    (hc : isIdentChar c = true) : lexStep r = word r := by
  have hplain : ['\n', '\r'].contains c = false := contains_eq_false_of_all (by decide) hc
  have hsign : isSign c = false := contains_eq_false_of_all (by decide) hc
  simp only [List.contains_cons, List.contains_nil, Bool.or_false, Bool.or_eq_false_iff,
    beq_eq_false_iff_ne] at hplain
  rw [lexStep_wide hr (by simp [hc]), wideToken_of_not_isSign hr hplain.1 hplain.2 hsign, if_pos hc]

/-! ## Steps on both sides -/

/-- What a step takes for the label of an edge. -/
theorem edgeLabel_text {z inner more : Text} (ha : a.rest = '|' :: z ++ old)
    (hline : a.restOfLine = '|' :: (inner ++ '|' :: more))
    (hend : (lexeme .edgeLabel (inner.length + 2) a).cursor.rest = old) :
    inner.length + 2 ≤ a.rest.length ∧ z = inner ++ ['|'] := by
  have hn : inner.length + 2 ≤ a.rest.length := by
    refine le_trans ?_ a.restOfLine_isPrefix.length_le
    rw [hline]
    simp
  have hz := length_of_skip hn ha hend
  refine ⟨hn, ?_⟩
  obtain ⟨below, hbelow⟩ := a.restOfLine_isPrefix
  rw [hline, ha, List.cons_append, List.cons_append, List.cons.injEq, List.append_assoc,
    List.cons_append, ← List.singleton_append, ← List.append_assoc] at hbelow
  exact (List.append_inj hbelow.2 (by simp at hz ⊢; omega)).1.symm

/-- The label of an edge is on the line of both texts. -/
theorem edgeLabel_keeps (h : Alike s r) {z inner more : Text} (ha : s.cursor.rest = '|' :: z ++ old)
    (hb : r.cursor.rest = '|' :: z ++ new) (hbar : '|' ∉ inner)
    (hline : s.cursor.restOfLine = '|' :: (inner ++ '|' :: more))
    (hend : (lexeme .edgeLabel (inner.length + 2) s.cursor).cursor.rest = old) :
    Keeps s r new (lexeme .edgeLabel (inner.length + 2) s.cursor) (lexStep r) := by
  obtain ⟨hn, rfl⟩ := edgeLabel_text ha hline hend
  have hinline : '\n' ∉ '|' :: (inner ++ ['|']) := by
    have hpart : '|' :: (inner ++ ['|']) <+: s.cursor.restOfLine := by
      rw [hline]
      exact ⟨more, by simp⟩
    intro hm
    exact s.cursor.newline_not_mem_wholeLine
      ((hpart.trans s.cursor.restOfLine_isPrefix_wholeLine).subset hm)
  have hline' : r.cursor.restOfLine = '|' :: (inner ++ '|' :: Cursor.lineRest new) := by
    unfold Cursor.restOfLine
    rw [hb, Cursor.lineRest_append hinline]
    · simp
    · intro d hd
      rw [← List.cons_append, List.getLast?_concat] at hd
      cases hd
      decide
  have hstep : lexStep r = edgeLabel r.cursor := by
    unfold lexStep
    rw [hb]
    rfl
  rw [hstep, edgeLabel_of_line hbar hline']
  exact keeps_lexeme h ha hb (by decide) hn hend

/-- The name of a class ends where it did if what comes next is the same. -/
theorem classRef_keeps (h : Alike s r) (hwhole : Kept s.cursor.rest r.cursor.rest) (hx : x ≠ [])
    (ha : s.cursor.rest = x ++ old) (hb : r.cursor.rest = x ++ new)
    (hstart : s.cursor.restOfLine.startsWith [':', ':', ':'] = true)
    (hhead : new.head? = old.head?) {name : Text}
    (hname : (s.cursor.rest.drop 3).takeWhile (fun c => isIdentChar c || c == '-') = name)
    (hend : (lexeme .classRef (3 + name.length) s.cursor).cursor.rest = old) :
    Keeps s r new (lexeme .classRef (3 + name.length) s.cursor) (lexStep r) := by
  obtain ⟨c, z, rfl⟩ := List.exists_cons_of_ne_nil hx
  have hn : 3 + name.length ≤ s.cursor.rest.length := by
    rw [← hname]
    exact (classRef_length_le hstart).trans s.cursor.restOfLine_isPrefix.length_le
  have hlength := length_of_skip hn ha hend
  have hcut : ∀ t : Text, (c :: z ++ t).drop 3 = (c :: z).drop 3 ++ t :=
    fun t => List.drop_append_of_le_length (by omega)
  have hsplit := List.takeWhile_append_dropWhile (l := s.cursor.rest.drop 3)
    (p := fun c => isIdentChar c || c == '-')
  rw [hname] at hsplit
  conv_rhs at hsplit => rw [ha, hcut]
  obtain ⟨hz, hold⟩ := List.append_inj hsplit (by simp at hlength ⊢; omega)
  have hname' : (r.cursor.rest.drop 3).takeWhile (fun c => isIdentChar c || c == '-') = name := by
    rw [hb, hcut, ← hz]
    refine takeWhile_append_of_stops (fun d hd => ?_) (hhead ▸ hold ▸ head?_dropWhile_stops _ _)
    exact List.mem_takeWhile_imp (p := fun c => isIdentChar c || c == '-') (hname ▸ hd)
  rw [hwhole.restOfLine.startsWith (by decide) (by decide)] at hstart
  rw [lexStep_classRef hb hstart, hname']
  exact keeps_lexeme h ha hb (by decide) hn hend

/-- What a step takes for a wrong link is one. -/
theorem wrongLink_text {n : Nat} (hl : linkAt? a.restOfLine = some (.invalidLink, n))
    (ha : a.rest = x ++ old) (hend : (lexeme .invalidLink n a).cursor.rest = old) :
    x ∈ wrongLinks ∧ n = 2 := by
  have hn := (linkAt?_length hl).2.trans a.restOfLine_isPrefix.length_le
  obtain ⟨sign, hsign, rfl, hpre⟩ := invalidLink_sign hl
  obtain ⟨more, hmore⟩ := hpre.trans a.restOfLine_isPrefix
  rw [ha] at hmore
  obtain ⟨rfl, -⟩ := List.append_inj hmore
    (by rw [String.length_toList]; exact length_of_skip hn ha hend)
  simp only [List.mem_cons, List.not_mem_nil, or_false] at hsign
  rcases hsign with rfl | rfl
  all_goals decide

/-- A wrong link stays one, and another link if it is still found. -/
theorem link_keeps (h : Alike s r) (hx : x ≠ []) (ha : s.cursor.rest = x ++ old)
    (hb : r.cursor.rest = x ++ new) {kind : Kind} {n : Nat}
    (hl : linkAt? s.cursor.restOfLine = some (kind, n))
    (hlink : kind = .link → linkAt? r.cursor.restOfLine = some (.link, n))
    (hend : (lexeme kind n s.cursor).cursor.rest = old) :
    Keeps s r new (lexeme kind n s.cursor) (lexStep r) := by
  have hn := (linkAt?_length hl).2.trans s.cursor.restOfLine_isPrefix.length_le
  rcases linkAt?_kind hl with rfl | rfl
  · obtain ⟨c, z, rfl⟩ := List.exists_cons_of_ne_nil hx
    rw [lexStep_link hb (hlink rfl)]
    exact keeps_lexeme h ha hb (by decide) hn hend
  · obtain ⟨hw, rfl⟩ := wrongLink_text hl ha hend
    rw [lexStep_wrongLink hw hb]
    exact keeps_lexeme h ha hb (by decide) hn hend

/-- What a step takes for an opening bracket and its label. -/
theorem openShape_text {opener : String} (ha : a.rest = x ++ old)
    (hopen : bracketAt? shapeOpeners a.restOfLine = some opener)
    (hend : (openShape opener a).cursor.rest = old) :
    ∃ z, x = opener.toList ++ z ∧ (a.skip opener.length).rest = z ++ old := by
  obtain ⟨-, hpre⟩ := bracketAt?_eq_some hopen
  obtain ⟨inner, hinner⟩ := hpre.trans a.restOfLine_isPrefix
  have hbehind := rest_skip_length hinner.symm
  rw [String.length_toList] at hbehind
  obtain ⟨⟨k, hmoves⟩, -⟩ := label_covers opener (a.skip opener.length)
  obtain ⟨z, hz⟩ : old <:+ inner := by
    rw [← hend, ← hbehind]
    change (label opener (a.skip opener.length)).cursor.rest <:+ _
    rw [hmoves, Cursor.skip_rest]
    exact List.drop_suffix _ _
  refine ⟨z, ?_, hbehind.trans hz.symm⟩
  rw [ha, ← hz, ← List.append_assoc] at hinner
  exact (List.append_cancel_right hinner).symm

/-- An opening bracket and its label are read in both texts. -/
theorem shapeOpen_keeps (h : Alike s r) (hk : Kept old new)
    (hwhole : Kept s.cursor.rest r.cursor.rest) {c : Char} {z : Text}
    (ha : s.cursor.rest = c :: z ++ old) (hb : r.cursor.rest = c :: z ++ new) {opener : String}
    (hopen : bracketAt? shapeOpeners s.cursor.restOfLine = some opener)
    (hg : c = '>' → followsIdent s = true) (he : (openShape opener s.cursor).errors = [])
    (hend : (openShape opener s.cursor).cursor.rest = old) :
    Keeps s r new (openShape opener s.cursor) (lexStep r) := by
  obtain ⟨z', hx, hbehind⟩ := openShape_text ha hopen hend
  have hopen' := hopen
  rw [hwhole.restOfLine.bracketAt? (by decide)] at hopen'
  rw [lexStep_shapeOpen hb hopen' (by rwa [h.followsIdent_eq])]
  refine openShape_keeps opener h hk hbehind ?_ he hend
  rw [hx, List.append_assoc] at hb
  rw [← String.length_toList]
  exact rest_skip_length hb

/-- What a step takes for a closing bracket is one. -/
theorem shapeClose_text {closer : String} (ha : a.rest = x ++ old)
    (hclose : bracketAt? shapeClosers a.restOfLine = some closer)
    (hend : (lexeme .shapeClose closer.length a).cursor.rest = old) :
    closer ∈ shapeClosers ∧ closer.toList = x := by
  obtain ⟨hmem, hpre⟩ := bracketAt?_eq_some hclose
  obtain ⟨more, hmore⟩ := hpre.trans a.restOfLine_isPrefix
  rw [ha] at hmore
  have hn := (length_of_find?_startsWith hclose (by decide)).2.trans
    a.restOfLine_isPrefix.length_le
  obtain ⟨hcloser, -⟩ := List.append_inj hmore
    (by rw [String.length_toList]; exact length_of_skip hn ha hend)
  exact ⟨hmem, hcloser⟩

/-- A step without an error reads on both sides what it read on the one, if the text behind it
differs in a wrong link only, which makes no other link of the one that is read, and stands right
behind no class. -/
theorem keeps_step (h : Alike s r) (hk : Kept old new)
    (hwhole : Kept s.cursor.rest r.cursor.rest) (hx : x ≠ []) (ha : s.cursor.rest = x ++ old)
    (hb : r.cursor.rest = x ++ new) (he : (lexStep s).errors = [])
    (hend : (lexStep s).cursor.rest = old)
    (hlink : ∀ n, lexStep s = lexeme .link n s.cursor →
      linkAt? s.cursor.restOfLine = some (.link, n) →
      linkAt? r.cursor.restOfLine = some (.link, n))
    (hclass : ∀ tok ∈ (lexStep s).tokens, tok.kind = .classRef → new.head? = old.head?) :
    Keeps s r new (lexStep s) (lexStep r) := by
  obtain ⟨c, z, rfl⟩ := List.exists_cons_of_ne_nil hx
  have hone : 1 ≤ s.cursor.rest.length := by rw [ha]; simp
  have htook := lexStep_took ha he
  generalize lexStep s = y at htook he hend hlink hclass
  cases htook with
  | blank hc =>
    rw [lexStep_blank hb hc]
    have hz : z = [] := by
      change s.cursor.next.rest = old at hend
      rw [Cursor.next_rest, ha] at hend
      exact List.append_left_eq_self.mp hend
    subst hz
    have hn : '\n' ∉ [c] := by
      rw [List.mem_singleton]
      rintro rfl
      cases hc
    refine ⟨rfl, rest_skip_length (x := [c]) hb, h.silent (n := 1) ?_ hone ?_ ?_⟩
    · rwa [ha]
    · rwa [hb]
    · rw [hb]
      simp
  | newline hc | semi hc | amp hc =>
    subst hc
    unfold lexStep
    rw [hb]
    exact keeps_lexeme h ha hb (by decide) hone hend
  | comment hc =>
    obtain ⟨rfl, hsecond⟩ := hc
    have hstart : r.cursor.rest.startsWith ['%', '%'] = true := by
      rw [← hwhole.startsWith (by decide) (by decide)]
      obtain ⟨more, hmore⟩ := List.head?_eq_some_iff.mp hsecond
      rw [ha]
      change Text.startsWith ('%' :: (z.append old)) ['%', '%'] = true
      rw [hmore]
      rfl
    obtain ⟨more, hmore⟩ := List.isPrefixOf_iff_prefix.mp hstart
    rw [lexStep_skims.comment r more hmore.symm]
    exact comment_keeps h hk ha hb hend
  | edgeLabel hc hbar hline =>
    subst hc
    exact edgeLabel_keeps h ha hb hbar hline hend
  | classRef hc =>
    exact classRef_keeps h hwhole hx ha hb hc (hclass _ (List.mem_singleton_self _) rfl) rfl hend
  | link kind n hl =>
    refine link_keeps h hx ha hb hl (fun hk => ?_) hend
    subst hk
    exact hlink n rfl hl
  | shapeOpen opener hopen hg => exact shapeOpen_keeps h hk hwhole ha hb hopen hg he hend
  | shapeClose closer hclose =>
    have hle := (length_of_find?_startsWith hclose (by decide)).2
    have hclose' := hclose
    rw [hwhole.restOfLine.bracketAt? (by decide)] at hclose'
    rw [lexStep_shapeClose hb hclose']
    exact keeps_lexeme h ha hb (by decide) (hle.trans s.cursor.restOfLine_isPrefix.length_le) hend
  | word hc =>
    rw [lexStep_word_of_isIdentChar hb hc]
    exact word_keeps h hk ha hb hend

/-- A word before a sign ends with no character of a link, and takes no text along. -/
theorem last_of_word (ha : s.cursor.rest = x ++ old) (hend : (word s).cursor.rest = old)
    (hsign : old.head? = some '-' ∨ old.head? = some '=') :
    ∀ c ∈ x.getLast?, isLinkChar c = false := by
  rcases word_cases ha hend with ⟨himage, -⟩ | ⟨image, rest, himage, hx, -, -, hbehind⟩
  · have halpha : old.head?.any isAlphanumeric = false := by
      rcases hsign with hsign | hsign
      all_goals
        rw [hsign]
        decide
    exact fun d hd => contains_eq_false_of_all (by decide) (wordAt_last (ha ▸ himage) halpha d hd)
  · rw [hx, List.append_assoc] at ha
    obtain ⟨hdash, hequal, -, -⟩ :=
      trailing_keeps (b := s.cursor.skip image.length) (.same rfl) (rest_skip_length ha)
        (rest_skip_length ha) hbehind
    rcases hsign with hsign | hsign
    · exact absurd hsign hdash
    · exact absurd hsign hequal

/-- Right before a wrong link, what a step has passed ends with no character of a link, unless it is
a link or a class. -/
theorem last_of_step (hx : x ≠ []) (ha : s.cursor.rest = x ++ old) (he : (lexStep s).errors = [])
    (hend : (lexStep s).cursor.rest = old) (hs : Swapped [] old new)
    (hk : ∀ tok ∈ (lexStep s).tokens,
      tok.kind ≠ .link ∧ tok.kind ≠ .classRef ∧ tok.kind ≠ .invalidLink) :
    ∀ c ∈ x.getLast?, isLinkChar c = false := by
  obtain ⟨c, z, rfl⟩ := List.exists_cons_of_ne_nil hx
  have hone : 1 ≤ s.cursor.rest.length := by rw [ha]; simp
  have hsingle : ∀ {kind}, (lexeme kind 1 s.cursor).cursor.rest = old → z = [] := by
    intro kind hend
    have hlength := length_of_skip hone ha hend
    exact List.length_eq_zero_iff.mp (Nat.succ.inj hlength).symm
  have hsign := hs.exists_sign
  have htook := lexStep_took ha he
  generalize lexStep s = y at htook he hend hk
  cases htook with
  | blank hc =>
    obtain rfl := @hsingle .newline hend
    rintro _ ⟨⟩
    exact contains_eq_false_of_all (by decide) hc
  | newline hc | semi hc | amp hc =>
    obtain rfl := hsingle hend
    rintro _ ⟨⟩
    rw [hc]
    decide
  | comment hc =>
    change s.cursor.takeLine.2.rest = old at hend
    rw [Cursor.takeLine_rest] at hend
    have hstop := hend ▸ head?_dropWhile_stops (· != '\n') s.cursor.rest
    rcases hsign with hsign | hsign
    all_goals exact absurd (hstop _ hsign) (by decide)
  | edgeLabel hc hbar hline =>
    subst hc
    obtain ⟨-, rfl⟩ := edgeLabel_text ha hline hend
    rw [← List.cons_append, List.getLast?_concat]
    rintro _ ⟨⟩
    decide
  | classRef hc => exact absurd rfl (hk _ (List.mem_singleton_self _)).2.1
  | link kind n hl =>
    obtain ⟨hlink, -, hinvalid⟩ := hk _ (List.mem_singleton_self _)
    rcases linkAt?_kind hl with rfl | rfl
    · exact absurd rfl hlink
    · exact absurd rfl hinvalid
  | shapeOpen opener hopen hg =>
    obtain ⟨label, -, hbehind⟩ := openShape_text ha hopen hend
    exact absurd hs (labelRead_of_label hbehind he hend).not_swapped
  | shapeClose closer hclose =>
    obtain ⟨hmem, hcloser⟩ := shapeClose_text ha hclose hend
    rw [← hcloser]
    have hlast : ∀ b ∈ shapeClosers, ∀ c ∈ b.toList.getLast?, isLinkChar c = false := by
      simp [shapeClosers, isLinkChar]
    exact hlast closer hmem
  | word hc => exact last_of_word ha hend hsign

/-! ## Wrong links behind a reader -/

/-- A link or a class is the only token of its step. -/
theorem lexStep_alone {s : Reader Kind} (hr : s.cursor.rest ≠ []) (he : (lexStep s).errors = [])
    {tok : Tok} (h : tok ∈ (lexStep s).tokens)
    (hk : tok.kind = .link ∨ tok.kind = .invalidLink ∨ tok.kind = .classRef) :
    ∃ n, lexStep.Alone s tok n := by
  obtain ⟨later, htoks⟩ := lexStep_head hr he h (by
    rcases hk with hk | hk | hk
    all_goals
      rw [hk]
      rfl)
  obtain ⟨c, rest, hrest⟩ := List.exists_cons_of_ne_nil hr
  have htook := lexStep_took hrest he
  generalize hy : lexStep s = y at htook htoks
  cases htook with
  | blank | comment => cases htoks
  | newline | semi | amp | edgeLabel | shapeOpen | shapeClose =>
    cases htoks
    simp [Token.ofText] at hk
  | classRef hc =>
    cases htoks
    exact ⟨_, by omega, classRef_length_le hc, by rw [hy]; rfl, by rw [hy]; rfl, rfl⟩
  | link kind n hl =>
    cases htoks
    obtain ⟨hpos, hle⟩ := linkAt?_length hl
    exact ⟨n, hpos, hle, by rw [hy]; rfl, by rw [hy]; rfl, rfl⟩
  | word hc =>
    obtain ⟨more, hword, -⟩ := word_tokens s
    rw [hword] at htoks
    cases htoks
    dsimp only [Token.ofText] at hk
    rcases wordKind_eq (.of s) _ with hw | hw | hw | hw
    all_goals
      rw [hw] at hk
      simp at hk

/-- On the line of a wrong link, no link comes before it that could take a text along, and right
before it no link and no class. -/
def LinksApart (toks : Toks) : Prop :=
  toks.Pairwise fun a b => b.kind = .invalidLink → a.line = b.line →
    (a.kind = .link → a.image ≠ "--" ∧ a.image ≠ "==") ∧
      (a.endColumn = b.column → a.kind ≠ .link ∧ a.kind ≠ .classRef ∧ a.kind ≠ .invalidLink)

instance : DecidablePred LinksApart := fun toks => inferInstanceAs (Decidable (toks.Pairwise _))

/-- The tokens that are read from a reader on. -/
def toksFrom (s : Reader Kind) : Toks := (Scan.run lexStep .eof s).lexed.tokens

/-- A wrong link comes behind a reader and some characters. -/
def Awaits (s : Reader Kind) (u : Text) : Prop :=
  ∃ tok ∈ toksFrom s, tok.kind = .invalidLink ∧
    ('\n' ∉ u → tok.line = s.cursor.line ∧ tok.column = s.cursor.column + u.length)

section

variable {s s' : Reader Kind} {u : Text}

theorem toksFrom_eq (hl : lexStep.Leads s s') : toksFrom s = (lexStep s).tokens ++ toksFrom s' :=
  hl.tokens_run _

theorem LinksApart.of_leads (h : LinksApart (toksFrom s)) (hl : lexStep.Leads s s') :
    LinksApart (toksFrom s') := by
  rw [toksFrom_eq hl] at h
  exact (List.pairwise_append.mp h).2.1

/-- The next reader is as much further as the step has read. -/
theorem skip_of_leads (hl : lexStep.Leads s s') (hx : s.cursor.rest = x ++ s'.cursor.rest) :
    s'.cursor = s.cursor.skip x.length := by
  obtain ⟨n, -, hn, hcursor⟩ := Yield.consumes_of_moves hl.rest (lexStep_passes s hl.rest).moves
  have hbehind : s'.cursor = s.cursor.skip n := by rw [hl.after]; exact hcursor
  rw [hbehind, ← length_of_skip hn hx (by rw [hbehind])]

theorem Awaits.of_leads (hl : lexStep.Leads s s') (hx : s.cursor.rest = x ++ s'.cursor.rest)
    (h : Awaits s' u) : Awaits s (x ++ u) := by
  obtain ⟨tok, hm, hk, hplace⟩ := h
  refine ⟨tok, by rw [toksFrom_eq hl]; exact List.mem_append_right _ hm, hk, fun hn => ?_⟩
  rw [List.mem_append, not_or] at hn
  have hskip := s.cursor.skip_place_of_not_mem (n := x.length)
    (by rw [hx, List.take_left]; exact hn.1) (by rw [hx]; simp)
  rw [← skip_of_leads hl hx] at hskip
  have hline : s'.cursor.line = s.cursor.line := congrArg Position.line hskip
  have hcolumn : s'.cursor.column = s.cursor.column + x.length := congrArg Position.column hskip
  obtain ⟨h1, h2⟩ := hplace hn.2
  rw [List.length_append]
  omega

/-- What the tokens of a step are not if a wrong link comes behind it. -/
theorem LinksApart.of_awaits (h : LinksApart (toksFrom s)) (hl : lexStep.Leads s s')
    (hw : Awaits s' u) (hn : '\n' ∉ u) {tok : Tok} (hm : tok ∈ (lexStep s).tokens) :
    (tok.kind = .link → tok.image ≠ "--" ∧ tok.image ≠ "==") ∧
      (u = [] → tok.kind ≠ .link ∧ tok.kind ≠ .classRef ∧ tok.kind ≠ .invalidLink) := by
  obtain ⟨wrong, hwrong, hk, hplace⟩ := hw
  obtain ⟨hline, hcolumn⟩ := hplace hn
  rw [toksFrom_eq hl] at h
  have hapart := (List.pairwise_append.mp h).2.2 tok hm wrong hwrong hk
  have hbehind : ∀ (_ : tok.kind = .link ∨ tok.kind = .invalidLink ∨ tok.kind = .classRef),
      tok.line = wrong.line ∧ (u = [] → tok.endColumn = wrong.column) := by
    intro hkind
    obtain ⟨n, halone⟩ := lexStep_alone hl.rest hl.errors hm hkind
    have hend : s'.cursor.place = ⟨tok.line, tok.endColumn⟩ := by
      rw [hl.after]
      exact halone.behind.2
    have h1 : s'.cursor.line = tok.line := congrArg Position.line hend
    have h2 : s'.cursor.column = tok.endColumn := congrArg Position.column hend
    refine ⟨by rw [hline, h1], ?_⟩
    rintro rfl
    rw [hcolumn, h2]
    rfl
  constructor
  · exact fun hkind => (hapart (hbehind (.inl hkind)).1).1 hkind
  · intro hu
    refine ⟨fun hkind => ?_, fun hkind => ?_, fun hkind => ?_⟩
    · obtain ⟨hsame, hend⟩ := hbehind (.inl hkind)
      exact ((hapart hsame).2 (hend hu)).1 hkind
    · obtain ⟨hsame, hend⟩ := hbehind (.inr (.inr hkind))
      exact ((hapart hsame).2 (hend hu)).2.1 hkind
    · obtain ⟨hsame, hend⟩ := hbehind (.inr (.inl hkind))
      exact ((hapart hsame).2 (hend hu)).2.2 hkind

/-! ## Texts with arrows for wrong links -/

/-- What a step reads, or an arrow for the wrong link that it reads. -/
inductive Piece (s : Reader Kind) : Text → Reader Kind → Prop where
  | step {x : Text} {s' : Reader Kind} (hl : lexStep.Leads s s')
    (hx : s.cursor.rest = x ++ s'.cursor.rest) : Piece s x s'
  | arrow {w : Text} {s' : Reader Kind} (hl : lexStep.Leads s s') (hw : w ∈ wrongLinks)
    (hx : s.cursor.rest = w ++ s'.cursor.rest) : Piece s ['-', '-', '>'] s'

/-- What is left for a reader and what is left with arrows for wrong links: the same, or the next
arrow stands for a wrong link that the reader will meet. -/
inductive Mended (s : Reader Kind) (v : Text) : Prop where
  | same (h : s.cursor.rest = v)
  | swapped {u : Text} (h : Swapped u s.cursor.rest v) (hw : Awaits s u)

theorem Mended.kept {v : Text} (h : Mended s v) : Kept s.cursor.rest v := by
  cases h with
  | same h => exact .same h
  | swapped h => exact .swapped h

/-- A step before a text with arrows. -/
theorem Mended.of_step {v : Text} (h : Mended s' v) (ha : LinksApart (toksFrom s))
    (hl : lexStep.Leads s s') (hx : s.cursor.rest = x ++ s'.cursor.rest) : Mended s (x ++ v) := by
  cases h with
  | same h => exact .same (by rw [hx, h])
  | @swapped u h hw =>
    refine .swapped (u := x ++ u) ?_ (hw.of_leads hl hx)
    rw [hx]
    refine h.append ?_
    rintro rfl
    have hne : x ≠ [] := by
      rintro rfl
      exact absurd hl.length_lt (by rw [hx]; exact Nat.lt_irrefl _)
    exact last_of_step hne hx hl.errors (by rw [hl.after]; rfl) h
      fun tok hm => (ha.of_awaits hl hw List.not_mem_nil hm).2 rfl

/-- An arrow for the wrong link that comes next. -/
theorem Mended.of_arrow {w : Text} (v : Text) (hl : lexStep.Leads s s') (hw : w ∈ wrongLinks)
    (hx : s.cursor.rest = w ++ s'.cursor.rest) : Mended s (['-', '-', '>'] ++ v) := by
  refine .swapped (u := []) ?_ ?_
  · rw [hx]
    exact .intro hw (by simp) _ _
  · have hstep := lexStep_wrongLink hw hx
    refine ⟨Token.ofText .invalidLink (s.cursor.rest.take 2) s.cursor.place, ?_, rfl,
      fun _ => ⟨rfl, rfl⟩⟩
    rw [toksFrom_eq hl, hstep]
    exact List.mem_cons_self

/-- A link that takes no text along is found before an arrow as well. -/
theorem Mended.linkAt?_eq {v : Text} (h : Mended s' v) (ha : LinksApart (toksFrom s))
    (hl : lexStep.Leads s s') (hx : s.cursor.rest = x ++ s'.cursor.rest)
    (hr : r.cursor.rest = x ++ v) {n : Nat} (hstep : lexStep s = lexeme .link n s.cursor)
    (hlink : linkAt? s.cursor.restOfLine = some (.link, n)) :
    linkAt? r.cursor.restOfLine = some (.link, n) := by
  unfold Cursor.restOfLine at hlink ⊢
  cases h with
  | same h => rwa [hr, ← h, ← hx]
  | @swapped u h hw =>
    by_cases hn : '\n' ∈ u
    · have hall := h.append (x := x) fun hu => by rw [hu] at hn; cases hn
      rw [← hx, ← hr] at hall
      rcases hall.lineRest with ⟨-, hline⟩ | ⟨hnot, -⟩
      · rwa [← hline]
      · exact absurd (List.mem_append_right _ hn) hnot
    · have hle := (linkAt?_length hlink).2
      have hlength := length_of_skip (hle.trans s.cursor.restOfLine_isPrefix.length_le) hx
        (by rw [hl.after, hstep]; rfl)
      have hinline := s.cursor.newline_not_mem_take (hle.trans s.cursor.restOfLine_length_le)
      have hm : Token.ofText .link (s.cursor.rest.take n) s.cursor.place ∈ (lexStep s).tokens := by
        rw [hstep]
        exact List.mem_singleton_self _
      obtain ⟨himage, hbehind⟩ := ha.of_awaits hl hw hn hm
      have hne : u ≠ [] := fun hu => (hbehind hu).1 rfl
      obtain ⟨hdash, hequal⟩ := himage rfl
      subst hlength
      dsimp only [Token.ofText] at hdash hequal
      rw [hx, List.take_left] at hinline hdash hequal
      have hall := h.append (x := x) fun hu => absurd hu hne
      obtain ⟨d, z, rfl⟩ := List.exists_cons_of_ne_nil hne
      rw [← hx, ← hr] at hall
      rcases hall.lineRest with ⟨hin, -⟩ | ⟨-, hlines⟩
      · rcases List.mem_append.mp hin with hin | hin
        · exact absurd hin hinline
        · exact absurd hin hn
      · obtain ⟨a, b, hold, hnew⟩ := hlines.exists_behind
        rw [hold] at hlink
        rw [hnew]
        refine linkAt?_append_cons hlink ?_ ?_
        · rintro rfl
          exact hdash rfl
        · rintro rfl
          exact hequal rfl

/-- Right behind a class stands no wrong link. -/
theorem Mended.head?_eq {v : Text} (h : Mended s' v) (ha : LinksApart (toksFrom s))
    (hl : lexStep.Leads s s') {tok : Tok} (hm : tok ∈ (lexStep s).tokens)
    (hk : tok.kind = .classRef) : v.head? = s'.cursor.rest.head? := by
  cases h with
  | same h => rw [h]
  | @swapped u h hw =>
    rcases h.head? with hsame | ⟨rfl, -⟩
    · exact hsame.symm
    · exact absurd hk ((ha.of_awaits hl hw List.not_mem_nil hm).2 rfl).2.1

theorem mended_of_spelling {v : Text} {e : Reader Kind} (h : Spelling Piece s v e)
    (he : e.cursor.rest = []) (ha : LinksApart (toksFrom s)) : Mended s v := by
  induction h with
  | nil s => exact .same he
  | cons hp _ ih =>
    cases hp with
    | step hl hx => exact (ih he (ha.of_leads hl)).of_step ha hl hx
    | arrow hl hw hx => exact .of_arrow _ hl hw hx

/-- The token that is left of a link is a link. -/
theorem alike_of_arrow {w : Text} (h : Alike s r) (hw : w ∈ wrongLinks)
    (hx : s.cursor.rest = w ++ old) (hb : r.cursor.rest = ['-', '-', '>'] ++ new) :
    Alike (s.after (lexStep s)) (r.after (lexStep r)) := by
  rw [lexStep_wrongLink hw hx, lexStep_arrow hb]
  refine h.behind rfl rfl rfl rfl ?_
  have hnone : ∀ (q : Reader Kind) (kind : Kind) (n : Nat), kind ≠ .ident →
      identGap (q.after (lexeme kind n q.cursor)) = none :=
    fun q kind n hk => identGap_after (y := lexeme kind n q.cursor) rfl hk
  exact (hnone r .link 3 (by decide)).trans (hnone s .invalidLink 2 (by decide)).symm

/-- A reader of the text with arrows reads it without an error. -/
theorem clean_of_spelling {v : Text} {e : Reader Kind} (h : Spelling Piece s v e)
    (he : e.cursor.rest = []) (ha : LinksApart (toksFrom s)) (hr : r.cursor.rest = v)
    (hs : Alike s r) : lexStep.Clean r := by
  have hwhole := mended_of_spelling h he ha
  induction h generalizing r with
  | nil s => exact .done hr
  | @cons s s' e x v hp hb ih =>
    cases hp with
    | step hl hx =>
      have ha' := ha.of_leads hl
      have hbehind := mended_of_spelling hb he ha'
      have hne : x ≠ [] := by
        rintro rfl
        exact absurd hl.length_lt (by rw [hx]; exact Nat.lt_irrefl _)
      have hkeeps := keeps_step hs hbehind.kept (hr ▸ hwhole.kept) hne hx hr hl.errors
        (by rw [hl.after]; rfl) ?_ ?_
      · refine .more ⟨?_, ?_, hkeeps.errors, rfl⟩ (ih he ha' hkeeps.rest ?_ hbehind)
        · rw [hr]
          exact List.append_ne_nil_of_left_ne_nil hne _
        · rw [hkeeps.rest, hr, List.length_append]
          exact Nat.lt_add_of_pos_left (List.length_pos_iff.mpr hne)
        · rw [hl.after]
          exact hkeeps.alike
      · exact fun n hstep hlink => hbehind.linkAt?_eq ha hl hx hr hstep hlink
      · exact fun tok hm => hbehind.head?_eq ha hl hm
    | arrow hl hw hx =>
      have hstep := lexStep_arrow hr
      have hrest : (lexStep r).cursor.rest = v := by
        rw [hstep]
        exact rest_skip_length (x := ['-', '-', '>']) hr
      refine .more ⟨?_, ?_, ?_, rfl⟩ (ih he (ha.of_leads hl) hrest ?_ ?_)
      · rw [hr]
        exact List.cons_ne_nil _ _
      · rw [hrest, hr, List.length_append]
        exact Nat.lt_add_of_pos_left (by decide)
      · rw [hstep]
        rfl
      · rw [hl.after]
        exact alike_of_arrow hs hw hx hr
      · exact mended_of_spelling hb he (ha.of_leads hl)

end

end

/-! ## The safe repair -/

theorem lexStep_spells : lexStep.Spells Piece (· = ·) fun _ s => s :=
  LexStep.spells_of_steps fun s s' hl => by
    obtain ⟨n, -, -, hcursor⟩ := Yield.consumes_of_moves hl.rest (lexStep_passes s hl.rest).moves
    have hx : s.cursor.rest = s.cursor.rest.take n ++ s'.cursor.rest := by
      rw [hl.after, Reader.after, hcursor, Cursor.skip_rest, List.take_append_drop]
    exact ⟨_, hx, .step hl hx⟩

section

variable {t : Text} {options : LintOptions} {d : Diagnostic}

theorem eq_linkFinding_of_code {previous : Option Tok} {tok : Tok}
    (hd : d ∈ tokenFindings previous tok) (hcode : d.code = some Code.arrowInvalid) :
    tok.kind = .invalidLink ∧ d = linkFinding tok := by
  by_cases hk : tok.kind = .invalidLink
  · rw [tokenFindings_invalidLink hk] at hd
    exact ⟨hk, List.mem_singleton.mp hd⟩
  · exact absurd hcode ((coded_tokenFindings_of_ne hk previous).ne hd (by decide))

/-- What is reported with the code of a wrong link is about a wrong link. -/
theorem exists_linkFinding (hd : d ∈ (grammar.report t options (tokenize t)).diagnostics)
    (hcode : d.code = some Code.arrowInvalid) :
    ∃ tok ∈ (tokenize t).tokens, tok.kind = .invalidLink ∧ d = (linkFinding tok).clampTo t := by
  obtain ⟨found, hfound, rfl⟩ := grammar_codes.exists_check hd hcode (by decide) fun e => by
    cases e
    all_goals exact fun h => absurd (Option.some.inj h) (by decide)
  have hcode : found.code = some Code.arrowInvalid := hcode
  obtain ⟨tok, hm, previous, hfinding⟩ := exists_of_mem_tokenChecks hfound
  obtain ⟨hk, rfl⟩ := eq_linkFinding_of_code hfinding hcode
  exact ⟨tok, hm, hk, rfl⟩

/-- Of what is reported, a pass has strategies to ask about wrong links only. -/
def RepairsLinksOnly (level : Level) (ds : List Diagnostic) : Prop :=
  ∀ d ∈ ds, (Registry.builtin.asks level d).isSome = true → d.code = some Code.arrowInvalid

instance (level : Level) : DecidablePred (RepairsLinksOnly level) := fun ds =>
  inferInstanceAs (Decidable (∀ d ∈ ds, _))

variable {pre post : Toks} {tok : Tok} {s : Reader Kind} {before lead ahead : Text}

/-- An arrow for a wrong link leads from the reader before the link to the one behind it. -/
theorem mends_link (h : lexStep.Reads .eof t pre tok post s before lead ahead)
    (hw : tok.image.toList ∈ wrongLinks) {edit : Edit}
    (hedit : edit = .replaceSpan (placeAfter before).line (lead.length + 1)
      tok.image.toList.length ['-', '-', '>']) :
    Mends Piece (· = ·) t (lexStep.Stands (fun _ s => s) t) (edit.resolve t, edit.newText)
      (edit.resolve t).start (edit.resolve t).stop := by
  have hstart : lexStep.Stands (fun _ s => s) t (Text.byteSize before) s :=
    ⟨s, before, h.reaches, h.cursor_at, rfl, rfl⟩
  have hstop : lexStep.Stands (fun _ s => s) t (Text.byteSize (before ++ tok.image.toList))
      (s.after (lexStep s)) :=
    ⟨_, _, h.reaches.tail h.leads, h.at_behind, rfl, rfl⟩
  have hx : s.cursor.rest = tok.image.toList ++ (s.after (lexStep s)).cursor.rest := by
    have htext := h.cursor_at.text_eq.symm.trans h.at_behind.text_eq
    rwa [List.append_assoc, List.append_cancel_left_eq] at htext
  rw [hedit, h.resolve_replace]
  exact Mends.of_tight hstart hstop rfl (.single (.arrow h.leads hw hx))

theorem mends_of_mem (hc : (tokenize t).errors = []) {edits : List Edit} {edit : Edit}
    (honly : RepairsLinksOnly .safe (grammar.report t options (tokenize t)).diagnostics)
    (hedits : selectEdits Registry.builtin t
      (grammar.report t options (tokenize t)).diagnostics .safe = .ok edits)
    (he : edit ∈ edits) :
    Mends Piece (· = ·) t (lexStep.Stands (fun _ s => s) t) (edit.resolve t, edit.newText)
      (edit.resolve t).start (edit.resolve t).stop := by
  have hclean : lexStep.Clean (Reader.ofText t) :=
    (Scan.errors_eq_nil_iff (scan_eq_finished t)).mp hc
  obtain ⟨d, hd, code, c, hcode, hcandidate, hedit⟩ := exists_candidate_of_mem_selectEdits hedits he
  obtain ⟨strategy, hget, hlevel, -⟩ := candidate?_eq_some hcandidate
  have hlink : d.code = some Code.arrowInvalid := by
    refine honly d hd ?_
    rw [Registry.asks, hcode, Option.bind_some, hget, Option.filter_some, if_pos hlevel]
    rfl
  obtain ⟨tok, hm, hk, rfl⟩ := exists_linkFinding hd hlink
  obtain rfl : code = Code.arrowInvalid := Option.some.inj (hcode.symm.trans hlink)
  obtain ⟨-, hp⟩ := candidate?_safe (.replaceToken "-->".toList) hcandidate rfl
  obtain ⟨pre, post, hsplit⟩ := List.append_of_mem hm
  obtain ⟨s, before, lead, ahead, hreads⟩ := hclean.exists_reads lexStep_honest hsplit
    (by rw [hk]; decide) fun s hne he htok => lexStep_alone hne he htok (.inr (.inl hk))
  refine mends_link hreads ?_ (hreads.edit_of_token rfl rfl hp hedit)
  have himage := (spelled_tokenize t tok hm).invalidLink hk
  simp only [List.mem_cons, List.not_mem_nil, or_false] at himage
  rcases himage with himage | himage
  all_goals
    rw [himage]
    decide

/-- A pass that repairs wrong links only leaves a flowchart that is read without an error, if the
flowchart was and its wrong links stand apart from what comes before them. -/
theorem errors_safe_pass (hc : (tokenize t).errors = []) (ha : LinksApart (tokenize t).tokens)
    (honly : RepairsLinksOnly .safe (grammar.report t options (tokenize t)).diagnostics)
    {edits : List Edit} (hedits : selectEdits Registry.builtin t
      (grammar.report t options (tokenize t)).diagnostics .safe = .ok edits) :
    (tokenize (t.splice edits)).errors = [] := by
  have hclean : lexStep.Clean (Reader.ofText t) :=
    (Scan.errors_eq_nil_iff (scan_eq_finished t)).mp hc
  obtain ⟨last, -, ⟨e, before, -, hat, hsize, rfl⟩, rfl, hspell⟩ :=
    (hclean.stations lexStep_honest lexStep_spells graded_eq).spells_edits graded_eq
      (fun n => ⟨n, n⟩) (List.pairwise_map.mpr (selectEdits_apart hedits))
      fun edit hedit => ⟨_, _, .tight (mends_of_mem hc honly hedits hedit)⟩
  have hend : e.cursor.rest = [] := by
    have htext := congrArg Text.byteSize hat.text_eq
    rw [Text.byteSize_append, hsize] at htext
    exact Text.byteSize_eq_zero (by omega)
  exact (Scan.errors_eq_nil_iff (scan_eq_finished _)).mpr
    (clean_of_spelling hspell hend ha rfl ⟨rfl, rfl⟩)

end

end DiagramLint.Flowchart
