-- The patterns of links read one character behind a link and no further: a link
-- stays the one that is found whatever comes behind that character, unless it
-- could take a text along.
import DiagramLint.Proofs.Flowchart.Tiles

namespace DiagramLint.Flowchart

variable {y : Text} {d : Char} {a b : Text} {n : Nat}

/-! ## Runs and heads -/

/-- A run of characters that ends with `y` at the latest ends there whatever comes behind the next
character. -/
theorem takeWhile_append_cons {p : Char → Bool}
    (h : ((y ++ d :: a).takeWhile p).length ≤ y.length) :
    (y ++ d :: b).takeWhile p = (y ++ d :: a).takeWhile p := by
  induction y with
  | nil =>
    cases hd : p d with
    | false => simp [hd]
    | true => simp [hd] at h
  | cons c y ih =>
    cases hc : p c with
    | false => simp [hc]
    | true =>
      rw [List.cons_append, List.takeWhile_cons_of_pos hc, List.length_cons,
        List.length_cons, Nat.succ_le_succ_iff] at h
      rw [List.cons_append, List.cons_append, List.takeWhile_cons_of_pos hc,
        List.takeWhile_cons_of_pos hc, ih h]

theorem runLength_append_cons {c : Char} (h : runLength c (y ++ d :: a) ≤ y.length) :
    runLength c (y ++ d :: b) = runLength c (y ++ d :: a) := by
  unfold runLength at h ⊢
  rw [takeWhile_append_cons h]

theorem runLength_drop_one_append_cons {c : Char}
    (h : runLength c ((y ++ d :: a).drop 1) < y.length) :
    runLength c ((y ++ d :: b).drop 1) = runLength c ((y ++ d :: a).drop 1) := by
  have hdrop : ∀ t : Text, (y ++ t).drop 1 = y.drop 1 ++ t :=
    fun t => List.drop_append_of_le_length (by omega)
  have hle : runLength c (y.drop 1 ++ d :: a) ≤ (y.drop 1).length := by
    rw [← hdrop, List.length_drop]
    omega
  rw [hdrop, hdrop]
  exact runLength_append_cons hle

theorem head?_drop_append_cons (h : n ≤ y.length) :
    ((y ++ d :: b).drop n).head? = ((y ++ d :: a).drop n).head? := by
  rw [List.drop_append_of_le_length h, List.drop_append_of_le_length h]
  cases y.drop n with
  | nil => rfl
  | cons c z => rfl

theorem headLength_cons (c : Char) (t : Text) :
    headLength (c :: t) = if c = '>' ∨ c = 'o' ∨ c = 'x' then 1 else 0 := by
  unfold headLength
  split
  all_goals simp_all

theorem headLength_congr {t t' : Text} (h : t.head? = t'.head?) : headLength t = headLength t' := by
  cases t with
  | nil =>
    cases t' with
    | nil => rfl
    | cons c t' => cases h
  | cons c t =>
    cases t' with
    | nil => cases h
    | cons c' t' =>
      obtain rfl := Option.some.inj h
      rw [headLength_cons, headLength_cons]

theorem runLength_of_head? {c e : Char} {t : Text} (h : t.head? = some e) (hne : e ≠ c) :
    runLength c t = 0 := by
  obtain ⟨rest, rfl⟩ := List.head?_eq_some_iff.mp h
  exact runLength_cons_of_ne hne rest

theorem head?_drop_of_lt_runLength {c : Char} {t : Text} (h : n < runLength c t) :
    (t.drop n).head? = some c := by
  induction t generalizing n with
  | nil => cases h
  | cons e t ih =>
    by_cases he : e = c
    · subst he
      cases n with
      | zero => rfl
      | succ n =>
        refine ih ?_
        unfold runLength at h ⊢
        simpa using h
    · rw [runLength_cons_of_ne he] at h
      cases h

/-! ## Plain links -/

theorem shaft?_append_cons (h : shaft? (y ++ d :: a) = some n) (hn : n ≤ y.length) :
    shaft? (y ++ d :: b) = some n := by
  unfold shaft? at h ⊢
  dsimp only at h ⊢
  split at h
  · rename_i hdashes
    cases h
    rw [runLength_append_cons hn, if_pos hdashes]
  · rename_i hdashes
    split at h
    · rename_i hequals
      cases h
      rw [runLength_append_cons (a := a) (b := b) (c := '-') (by omega), if_neg hdashes,
        runLength_append_cons hn, if_pos hequals]
    · rename_i hequals
      split at h
      · rename_i hdotted
        cases h
        rw [runLength_append_cons (a := a) (b := b) (c := '-') (by omega),
          runLength_append_cons (a := a) (b := b) (c := '=') (by omega),
          runLength_drop_one_append_cons (a := a) (b := b) (by omega),
          head?_drop_append_cons (a := a) (b := b) (by omega), if_neg hdashes, if_neg hequals,
          if_pos hdotted]
      · cases h

theorem shaft?_of_head? {e : Char} {t : Text} (h : t.head? = some e) (hdash : e ≠ '-')
    (hequal : e ≠ '=') : shaft? t = none := by
  simp [shaft?, runLength_of_head? h hdash, runLength_of_head? h hequal]

/-- One dot is the middle of a shaft only before a dash. -/
theorem shaft?_dot {rest : Text} (hone : runLength '.' ('.' :: rest) = 1)
    (hlast : rest.head? ≠ some '-') : shaft? ('-' :: '.' :: rest) = none := by
  have hdash : runLength '-' ('-' :: '.' :: rest) = 1 := by simp [runLength]
  have hequal : runLength '=' ('-' :: '.' :: rest) = 0 := by simp [runLength]
  have hdot : runLength '.' (('-' :: '.' :: rest).drop 1) = 1 := hone
  unfold shaft?
  dsimp only
  rw [hdash, hequal, hdot, if_neg (by decide), if_neg (by decide), if_neg]
  exact fun h => hlast h.2.2

theorem two_le_shaft? {t : Text} (h : shaft? t = some n) : 2 ≤ n := by
  unfold shaft? at h
  dsimp only at h
  split at h
  · cases h
    assumption
  · split at h
    · cases h
      assumption
    · split at h
      · cases h
        omega
      · cases h

theorem two_le_plainLink? {t : Text} (h : plainLink? t = some n) : 2 ≤ n := by
  unfold plainLink? at h
  dsimp only at h
  split at h
  · rename_i shaft hshaft
    have := two_le_shaft? hshaft
    cases h
    omega
  · split at h
    · cases h
      omega
    · cases h

theorem plainLink?_append_cons (h : plainLink? (y ++ d :: a) = some y.length) :
    plainLink? (y ++ d :: b) = some y.length := by
  have htwo := two_le_plainLink? h
  have hhead : (y ++ d :: b).head? = (y ++ d :: a).head? :=
    head?_drop_append_cons (n := 0) (Nat.zero_le _)
  unfold plainLink? at h ⊢
  dsimp only at h ⊢
  rw [hhead]
  have htail : (if (y ++ d :: a).head? = some '<' then 1 else 0) ≤ y.length := by
    split <;> omega
  generalize hcut : (if (y ++ d :: a).head? = some '<' then 1 else 0) = tail at h htail ⊢
  have hdrop : ∀ t : Text, (y ++ t).drop tail = y.drop tail ++ t :=
    fun t => List.drop_append_of_le_length htail
  rw [hdrop] at h ⊢
  split at h
  · rename_i shaft hshaft
    have hlen := Option.some.inj h
    rw [shaft?_append_cons hshaft (by rw [List.length_drop]; omega)]
    dsimp only
    rw [headLength_congr (head?_drop_append_cons (a := a) (by omega)), hlen]
  · split at h
    · rename_i htildes
      have hlen := Option.some.inj h
      have hfirst : (y ++ d :: a).head? = some '~' :=
        head?_drop_of_lt_runLength (n := 0) (by omega)
      obtain rfl : tail = 0 := by
        rw [← hcut, hfirst]
        rfl
      have hnone : shaft? (y.drop 0 ++ d :: b) = none :=
        shaft?_of_head? (hhead.trans hfirst) (by decide) (by decide)
      rw [hnone]
      dsimp only
      rw [runLength_append_cons (a := a) (by omega), if_pos htildes, hlen]
    · cases h

theorem head?_of_headLength {t : Text} (h : 0 < headLength t) :
    ∃ c ∈ ['>', 'o', 'x'], t.head? = some c := by
  unfold headLength at h
  split at h
  · exact ⟨'>', by decide, rfl⟩
  · exact ⟨'o', by decide, rfl⟩
  · exact ⟨'x', by decide, rfl⟩
  · cases h

/-- A text starts with a run and what may come behind it as a head. -/
theorem third_of_run {c : Char} {t : Text} (hc : c ∈ ['-', '=']) (hrun : 2 ≤ runLength c t)
    (hn : 2 < runLength c t + headLength (t.drop (runLength c t))) :
    ∃ e ∈ ['-', '=', '>', 'o', 'x'], (t.drop 2).head? = some e := by
  by_cases hmore : 2 < runLength c t
  · refine ⟨c, ?_, head?_drop_of_lt_runLength hmore⟩
    simp only [List.mem_cons, List.not_mem_nil, or_false] at hc
    rcases hc with rfl | rfl
    all_goals decide
  · have htwo : runLength c t = 2 := by omega
    rw [htwo] at hn
    obtain ⟨e, he, hhead⟩ := head?_of_headLength (by omega : 0 < headLength (t.drop 2))
    refine ⟨e, ?_, hhead⟩
    simp only [List.mem_cons, List.not_mem_nil, or_false] at he
    rcases he with rfl | rfl | rfl
    all_goals decide

/-- A plain link that starts with two signs of a run goes on behind them, unless it is just
these two. -/
theorem third_of_two_signs {c : Char} {rest : Text} (hc : c ∈ ['-', '='])
    (h : plainLink? ([c, c] ++ rest) = some n) (hno : ([c, c] ++ rest).take n ≠ [c, c]) :
    ∃ e ∈ ['-', '=', '>', 'o', 'x'], rest.head? = some e := by
  have htwo : 2 ≤ runLength c ([c, c] ++ rest) := by simp [runLength]
  have hless : ([c, c] ++ rest).head? ≠ some '<' := by
    rintro ⟨⟩
    exact absurd hc (by decide)
  have hshaft : shaft? ([c, c] ++ rest) = some (runLength c ([c, c] ++ rest)) := by
    unfold shaft?
    simp only [List.mem_cons, List.not_mem_nil, or_false] at hc
    rcases hc with rfl | rfl
    · exact if_pos htwo
    · rw [if_neg (by simp [runLength]), if_pos htwo]
  have hn : runLength c ([c, c] ++ rest) +
      headLength (([c, c] ++ rest).drop (runLength c ([c, c] ++ rest))) = n := by
    unfold plainLink? at h
    simpa only [if_neg hless, List.drop_zero, hshaft, Nat.zero_add, Option.some.injEq] using h
  refine third_of_run hc htwo ?_
  by_contra hle
  obtain rfl : n = 2 := by omega
  exact hno rfl

/-- Behind the first two signs of a plain link that could open a text, the link goes on, unless it
is just these two. -/
theorem third_of_plainLink? {t : Text} (h : plainLink? t = some n) (ho : opensTextLink t = true)
    (hdash : t.take n ≠ ['-', '-']) (hequal : t.take n ≠ ['=', '=']) :
    ∃ e ∈ ['-', '=', '>', 'o', 'x', '.'], (t.drop 2).head? = some e := by
  simp only [opensTextLink, Bool.or_eq_true, Text.startsWith, List.isPrefixOf_iff_prefix] at ho
  rcases ho with (⟨rest, rfl⟩ | ⟨rest, rfl⟩) | ⟨rest, rfl⟩
  · obtain ⟨e, he, hthird⟩ := third_of_two_signs (by decide) h hdash
    exact ⟨e, List.mem_append_left ['.'] he, hthird⟩
  · obtain ⟨e, he, hthird⟩ := third_of_two_signs (by decide) h hequal
    exact ⟨e, List.mem_append_left ['.'] he, hthird⟩
  · -- dots between two dashes, or no link at all
    have hdots : 1 ≤ runLength '.' ('.' :: rest) := by simp [runLength]
    by_cases hmore : 2 ≤ runLength '.' ('.' :: rest)
    · exact ⟨'.', by decide, head?_drop_of_lt_runLength (t := '.' :: rest) hmore⟩
    · have hone : runLength '.' ('.' :: rest) = 1 := by omega
      by_cases hlast : rest.head? = some '-'
      · exact ⟨'-', by decide, hlast⟩
      · have hshaft := shaft?_dot hone hlast
        simp [plainLink?, hshaft, runLength] at h

theorem textLink?_of_third {e : Char} {t : Text} (h : (t.drop 2).head? = some e) (hs : e ≠ ' ')
    (ht : e ≠ '\t') : textLink? t = none := by
  obtain ⟨rest, hrest⟩ := List.head?_eq_some_iff.mp h
  unfold textLink?
  rw [hrest]
  simp [hs, ht]

/-! ## Links with text -/

theorem runLength_cons_le (c e : Char) (t : Text) : runLength c (e :: t) ≤ runLength c t + 1 := by
  unfold runLength
  rw [List.takeWhile_cons]
  split
  · rw [List.length_cons]
  · simp

/-- No run of the signs that a closing half is made of goes on behind the first `n` characters. -/
structure RunsWithin (n : Nat) (t : Text) : Prop where
  dashes : runLength '-' t ≤ n
  equals : runLength '=' t ≤ n
  dotted : t.head? = some '.' → runLength '-' (t.drop 1) < n

namespace RunsWithin

variable {t : Text}

theorem of_dashes (hpos : 0 < runLength '-' t) (hle : runLength '-' t ≤ n) : RunsWithin n t := by
  have hhead : t.head? = some '-' := head?_drop_of_lt_runLength (n := 0) hpos
  refine ⟨hle, ?_, fun hdot => absurd (hhead.symm.trans hdot) (by decide)⟩
  rw [runLength_of_head? hhead (by decide)]
  exact Nat.zero_le _

theorem of_equals (hpos : 0 < runLength '=' t) (hle : runLength '=' t ≤ n) : RunsWithin n t := by
  have hhead : t.head? = some '=' := head?_drop_of_lt_runLength (n := 0) hpos
  refine ⟨?_, hle, fun hdot => absurd (hhead.symm.trans hdot) (by decide)⟩
  rw [runLength_of_head? hhead (by decide)]
  exact Nat.zero_le _

theorem of_dotted (hdot : t.head? = some '.') (hlt : runLength '-' (t.drop 1) < n) :
    RunsWithin n t := by
  refine ⟨?_, ?_, fun _ => hlt⟩
  all_goals
    rw [runLength_of_head? hdot (by decide)]
    exact Nat.zero_le _

/-- One more character before the text. -/
theorem cons (h : RunsWithin n t) (c : Char) : RunsWithin (n + 1) (c :: t) where
  dashes := (runLength_cons_le _ _ _).trans (Nat.succ_le_succ h.dashes)
  equals := (runLength_cons_le _ _ _).trans (Nat.succ_le_succ h.equals)
  dotted _ := Nat.lt_succ_of_le h.dashes

theorem of_closingHalf? (h : closingHalf? t = some n) : RunsWithin n t := by
  unfold closingHalf? at h
  dsimp only at h
  split at h
  · cases h
    exact .of_dashes (by omega) (by omega)
  · split at h
    · cases h
      exact .of_dashes (by omega) (by omega)
    · split at h
      · cases h
        exact .of_equals (by omega) (by omega)
      · split at h
        · cases h
          exact .of_equals (by omega) (by omega)
        · split at h
          · rename_i hdot
            split at h
            · cases h
              exact .of_dotted hdot.1 (by omega)
            · cases h
              exact .of_dotted hdot.1 (by omega)
          · cases h

theorem of_throughClosingHalf? (h : throughClosingHalf? (y ++ d :: a) = some y.length) :
    RunsWithin y.length (y ++ d :: a) := by
  induction y with
  | nil => exact absurd (throughClosingHalf?_length h).1 (Nat.lt_irrefl 0)
  | cons c y ih =>
    rw [List.cons_append] at h ⊢
    unfold throughClosingHalf? at h
    split at h
    · rename_i half hhalf
      rw [← Option.some.inj h]
      exact .of_closingHalf? hhalf
    · split at h
      · cases h
      · obtain ⟨m, hm, hlen⟩ := Option.map_eq_some_iff.mp h
        obtain rfl : m = y.length := Nat.succ.inj hlen
        exact (ih hm).cons c

end RunsWithin

theorem closingHalf?_append_cons (h : RunsWithin y.length (y ++ d :: a)) :
    closingHalf? (y ++ d :: b) = closingHalf? (y ++ d :: a) := by
  have hhead : (y ++ d :: b).head? = (y ++ d :: a).head? :=
    head?_drop_append_cons (n := 0) (Nat.zero_le _)
  unfold closingHalf?
  dsimp only
  rw [runLength_append_cons (a := a) h.dashes, runLength_append_cons (a := a) h.equals,
    head?_drop_append_cons (a := a) h.dashes, head?_drop_append_cons (a := a) h.equals, hhead]
  by_cases hfirst : (y ++ d :: a).head? = some '.'
  · have hlt := h.dotted hfirst
    rw [runLength_drop_one_append_cons (a := a) hlt,
      head?_drop_append_cons (a := a) (b := b) (by omega)]
  · have hno : ∀ {p : Prop}, ¬((y ++ d :: a).head? = some '.' ∧ p) := fun h => hfirst h.1
    rw [if_neg hno, if_neg hno]

theorem throughClosingHalf?_append_cons
    (h : throughClosingHalf? (y ++ d :: a) = some y.length) :
    throughClosingHalf? (y ++ d :: b) = some y.length := by
  induction y with
  | nil => exact absurd (throughClosingHalf?_length h).1 (Nat.lt_irrefl 0)
  | cons c y ih =>
    have hhalf := closingHalf?_append_cons (b := b) (.of_throughClosingHalf? h)
    rw [List.cons_append] at h hhalf ⊢
    rw [List.cons_append] at hhalf
    unfold throughClosingHalf? at h ⊢
    rw [hhalf]
    split at h
    · exact h
    · split at h
      · cases h
      · rename_i hgoes
        obtain ⟨m, hm, hlen⟩ := Option.map_eq_some_iff.mp h
        obtain rfl : m = y.length := Nat.succ.inj hlen
        rw [if_neg hgoes, ih hm]
        rfl

theorem opensTextLink_append {y : Text} (h : 2 ≤ y.length) (t : Text) :
    opensTextLink (y ++ t) = opensTextLink y := by
  match y, h with
  | c :: e :: y, _ => simp [opensTextLink, Text.startsWith, List.isPrefixOf]

theorem blanksBehind_append_cons (h : 2 + blanksBehind (y ++ d :: a) ≤ y.length) :
    blanksBehind (y ++ d :: b) = blanksBehind (y ++ d :: a) := by
  have hdrop : ∀ t : Text, (y ++ t).drop 2 = y.drop 2 ++ t :=
    fun t => List.drop_append_of_le_length (by omega)
  unfold blanksBehind at h ⊢
  rw [hdrop] at h ⊢
  rw [hdrop, takeWhile_append_cons (a := a) (by rw [List.length_drop]; omega)]

/-- The first character behind the opening half and its blanks, and what of the link comes behind
it. -/
theorem exists_drop_append (h : n < y.length) : ∃ c z, y.length = z.length + 1 + n ∧
    ∀ t : Text, (y ++ t).drop n = c :: (z ++ t) := by
  obtain ⟨c, z, hz⟩ := List.exists_cons_of_length_pos (l := y.drop n)
    (by rw [List.length_drop]; omega)
  refine ⟨c, z, ?_, fun t => ?_⟩
  · have hlen := congrArg List.length hz
    rw [List.length_drop, List.length_cons] at hlen
    omega
  · rw [List.drop_append_of_le_length h.le, hz]
    rfl

theorem TextLink.append_cons (h : TextLink (y ++ d :: a) y.length) :
    TextLink (y ++ d :: b) y.length := by
  cases h with
  | @plain c rest m hopens hblanks hrest hc hm hn =>
    have hsame := blanksBehind_append_cons (a := a) (b := b) (y := y) (d := d) (by omega)
    obtain ⟨e, z, hlength, hdrop⟩ :=
      exists_drop_append (y := y) (n := 2 + blanksBehind (y ++ d :: a)) (by omega)
    rw [hdrop, List.cons.injEq] at hrest
    obtain ⟨rfl, rfl⟩ := hrest
    obtain rfl : m = z.length := by omega
    rw [opensTextLink_append (by omega)] at hopens
    rw [← hsame] at hblanks hdrop hn
    exact .plain (by rwa [opensTextLink_append (by omega)]) hblanks (hdrop _) hc
      (throughClosingHalf?_append_cons hm) hn
  | @marked c rest m hopens hblanks htwo hrest hc hm hn =>
    have hpos := (throughClosingHalf?_length hm).1
    have hsame := blanksBehind_append_cons (a := a) (b := b) (y := y) (d := d) (by omega)
    obtain ⟨e, z, hlength, hdrop⟩ :=
      exists_drop_append (y := y) (n := 2 + blanksBehind (y ++ d :: a)) (by omega)
    rw [hdrop, List.cons.injEq] at hrest
    obtain ⟨rfl, rfl⟩ := hrest
    obtain rfl : m = (e :: z).length := by
      rw [List.length_cons]
      omega
    rw [opensTextLink_append (by omega)] at hopens
    rw [← hsame] at hblanks htwo hdrop hn
    exact .marked (by rwa [opensTextLink_append (by omega)]) hblanks htwo (hdrop _) hc
      (throughClosingHalf?_append_cons (y := e :: z) hm) hn

/-- A link is found whatever comes behind the next character, unless it could take text along. -/
theorem linkAt?_append_cons (h : linkAt? (y ++ d :: a) = some (.link, y.length))
    (hdash : y ≠ ['-', '-']) (hequal : y ≠ ['=', '=']) :
    linkAt? (y ++ d :: b) = some (.link, y.length) := by
  unfold linkAt? at h ⊢
  cases htext : textLink? (y ++ d :: a) with
  | some n =>
    rw [htext] at h
    obtain rfl : n = y.length := congrArg Prod.snd (Option.some.inj h)
    rw [textLink?_eq_some_iff.mpr (textLink?_eq_some_iff.mp htext).append_cons]
    rfl
  | none =>
    rw [htext] at h
    cases hplain : plainLink? (y ++ d :: a) with
    | some n =>
      rw [hplain] at h
      obtain rfl : n = y.length := congrArg Prod.snd (Option.some.inj h)
      have htwo := two_le_plainLink? hplain
      have hnone : textLink? (y ++ d :: b) = none := by
        by_cases hopens : opensTextLink y = true
        · obtain ⟨e, he, hthird⟩ := third_of_plainLink? hplain
            (by rwa [opensTextLink_append htwo]) (by rwa [List.take_left]) (by rwa [List.take_left])
          rw [← head?_drop_append_cons (b := b) htwo] at hthird
          refine textLink?_of_third hthird ?_ ?_
          · rintro rfl
            exact absurd he (by decide)
          · rintro rfl
            exact absurd he (by decide)
        · unfold textLink?
          rw [opensTextLink_append htwo, if_neg hopens]
      rw [hnone, plainLink?_append_cons hplain]
      rfl
    | none =>
      rw [hplain] at h
      cases hinvalid : invalidLink? (y ++ d :: a) with
      | some n =>
        rw [hinvalid] at h
        cases h
      | none =>
        rw [hinvalid] at h
        cases h

end DiagramLint.Flowchart
