-- Texts that differ in links. Where a wrong link gives way to an arrow, the
-- words and labels before it are read as they were: none of them takes a link
-- along, and a label ends at the white space before one.
import Mathlib.Data.List.Pairwise
import DiagramLint.Proofs.Flowchart.Patterns
import DiagramLint.Proofs.Flowchart.Steps

namespace DiagramLint

/-- A text starts as before, whatever comes behind it that the start does not go on with. -/
theorem Text.startsWith_append {p a v : Text} (hv : ∀ c ∈ v.head?, c ∉ p) :
    (a ++ v).startsWith p = a.startsWith p := by
  unfold Text.startsWith
  induction p generalizing a with
  | nil => simp
  | cons d p ih =>
    cases a with
    | nil =>
      cases v with
      | nil => rfl
      | cons c v =>
        have hne : c ≠ d := fun h => hv c rfl (h ▸ List.mem_cons_self)
        simp [List.isPrefixOf, hne.symm]
    | cons c a =>
      rw [List.cons_append, List.isPrefixOf, List.isPrefixOf,
        ih fun e he hm => hv e he (List.mem_cons_of_mem d hm)]

namespace Cursor

/-- A line goes on behind some of its characters, unless a carriage return is the last of them. -/
theorem lineRest_append {a : Text} (hn : '\n' ∉ a) (hlast : ∀ c ∈ a.getLast?, c ≠ '\r')
    (b : Text) : lineRest (a ++ b) = a ++ lineRest b := by
  have hpass : ∀ c ∈ a, (c != '\n') = true := by
    intro c hc
    rw [bne_iff_ne]
    rintro rfl
    exact hn hc
  have hstop : a.reverse.dropWhile (· == '\r') = a.reverse := by
    cases hrev : a.reverse with
    | nil => rfl
    | cons c rest =>
      have hc : a.getLast? = some c := by rw [← List.head?_reverse, hrev]; rfl
      simp [hlast c hc]
  unfold lineRest Text.dropEndWhile
  rw [List.takeWhile_append_of_pos hpass, List.reverse_append, List.dropWhile_append, hstop]
  split
  · rename_i hempty
    rw [List.isEmpty_iff.mp hempty]
    simp
  · simp

/-- A line is what it is, whatever comes behind its line feed. -/
theorem takeWhile_append_of_mem {a : Text} (hn : '\n' ∈ a) (b : Text) :
    (a ++ b).takeWhile (· != '\n') = a.takeWhile (· != '\n') := by
  obtain ⟨pre, post, rfl, hpre⟩ := List.eq_append_cons_of_mem hn
  have hpass : ∀ c ∈ pre, (c != '\n') = true := by
    intro c hc
    rw [bne_iff_ne]
    rintro rfl
    exact hpre hc
  rw [List.append_assoc, List.takeWhile_append_of_pos hpass, List.takeWhile_append_of_pos hpass]
  rfl

end Cursor

namespace Flowchart

/-! ## Texts with an arrow for a wrong link -/

/-- The links that flowcharts do not have. -/
def wrongLinks : List Text := [['-', '>'], ['=', '>']]

/-- The characters that a link starts with, or that stand in it. -/
def isLinkChar (c : Char) : Bool := ['-', '=', '.', '>', '~', '<'].contains c

/-- A text with a wrong link behind `u`, and the text where an arrow stands there, whatever comes
behind it. No character of a link stands right before the wrong one. -/
inductive Swapped (u : Text) : Text → Text → Prop where
  | intro {w : Text} (hw : w ∈ wrongLinks) (hu : ∀ c ∈ u.getLast?, isLinkChar c = false)
    (old new : Text) : Swapped u (u ++ (w ++ old)) (u ++ ('-' :: '-' :: '>' :: new))

variable {u w x t old new : Text}

theorem exists_wrongLink (h : w ∈ wrongLinks) : ∃ c, w = [c, '>'] ∧ (c = '-' ∨ c = '=') := by
  simp only [wrongLinks, List.mem_cons, List.not_mem_nil, or_false] at h
  rcases h with rfl | rfl
  · exact ⟨'-', rfl, .inl rfl⟩
  · exact ⟨'=', rfl, .inr rfl⟩

theorem forall_mem_wrongLink (h : w ∈ wrongLinks) : ∀ c ∈ w, isLinkChar c = true := by
  obtain ⟨c, rfl, rfl | rfl⟩ := exists_wrongLink h
  all_goals simp [isLinkChar]

namespace Swapped

/-- More characters before both texts. -/
theorem append (h : Swapped u old new) (hx : u = [] → ∀ c ∈ x.getLast?, isLinkChar c = false) :
    Swapped (x ++ u) (x ++ old) (x ++ new) := by
  cases h with
  | intro hw hu old new =>
    have hlast : ∀ c ∈ (x ++ u).getLast?, isLinkChar c = false := by
      intro c hc
      rcases List.eq_nil_or_concat u with rfl | ⟨v, d, rfl⟩
      · exact hx rfl c (by simpa using hc)
      · exact hu c (by simpa [← List.append_assoc] using hc)
    simpa only [List.append_assoc] using intro hw hlast old new

/-- What comes next is the same, or a link. -/
theorem head? (h : Swapped u old new) :
    old.head? = new.head? ∨ u = [] ∧ (old.head? = some '-' ∨ old.head? = some '=') ∧
      new.head? = some '-' := by
  cases h with
  | intro hw hu old new =>
    obtain ⟨c, rfl, hc⟩ := exists_wrongLink hw
    cases u with
    | nil =>
      right
      rcases hc with rfl | rfl
      · exact ⟨rfl, .inl rfl, rfl⟩
      · exact ⟨rfl, .inr rfl, rfl⟩
    | cons d u => exact .inl rfl

theorem any_head? (h : Swapped u old new) {p : Char → Bool} (hdash : p '-' = false)
    (hequal : p '=' = false) : old.head?.any p = new.head?.any p := by
  rcases h.head? with hsame | ⟨-, hold | hold, hnew⟩
  · rw [hsame]
  · rw [hold, hnew]
  · rw [hold, hnew]
    simp [hdash, hequal]

/-- Both texts start alike, as far as it is not links that they start with. -/
theorem startsWith (h : Swapped u old new) {p : Text} (hdash : '-' ∉ p) (hequal : '=' ∉ p) :
    old.startsWith p = new.startsWith p := by
  cases h with
  | intro hw hu old new =>
    obtain ⟨c, rfl, hc⟩ := exists_wrongLink hw
    rw [Text.startsWith_append, Text.startsWith_append]
    · intro d hd
      cases hd
      exact hdash
    · intro d hd
      cases hd
      rcases hc with rfl | rfl
      · exact hdash
      · exact hequal

/-- The lines of both texts are one, or the wrong link stands on the line. -/
theorem lineRest (h : Swapped u old new) :
    '\n' ∈ u ∧ Cursor.lineRest old = Cursor.lineRest new ∨
      '\n' ∉ u ∧ Swapped u (Cursor.lineRest old) (Cursor.lineRest new) := by
  cases h with
  | intro hw hu old new =>
    by_cases hn : '\n' ∈ u
    · left
      refine ⟨hn, ?_⟩
      unfold Cursor.lineRest
      rw [Cursor.takeWhile_append_of_mem hn, Cursor.takeWhile_append_of_mem hn]
    · right
      refine ⟨hn, ?_⟩
      obtain ⟨c, rfl, hc⟩ := exists_wrongLink hw
      have hline : ∀ (k : Text), (k = [c, '>'] ∨ k = ['-', '-', '>']) → ∀ v,
          Cursor.lineRest (u ++ (k ++ v)) = u ++ (k ++ Cursor.lineRest v) := by
        intro k hk v
        rw [← List.append_assoc, Cursor.lineRest_append, List.append_assoc]
        · rcases hk with rfl | rfl
          · rcases hc with rfl | rfl <;> simpa using hn
          · simpa using hn
        · rcases hk with rfl | rfl
          all_goals
            intro d hd
            simp at hd
            rw [← hd]
            decide
      rw [hline _ (.inl rfl) old, show '-' :: '-' :: '>' :: new = ['-', '-', '>'] ++ new from rfl,
        hline _ (.inr rfl) new]
      exact .intro hw hu _ _

end Swapped

/-- Behind what comes first, both texts go on with the same character. -/
theorem Swapped.exists_behind {d : Char} {z : Text} (h : Swapped (x ++ d :: z) old new) :
    ∃ a b, old = x ++ d :: a ∧ new = x ++ d :: b := by
  cases h with
  | @intro w hw hu old new =>
    exact ⟨z ++ (w ++ old), z ++ ('-' :: '-' :: '>' :: new), by simp, by simp⟩

/-- What comes next is a sign of a link, if the wrong link does. -/
theorem Swapped.exists_sign (h : Swapped [] old new) :
    old.head? = some '-' ∨ old.head? = some '=' := by
  cases h with
  | intro hw hu old new =>
    obtain ⟨c, rfl, rfl | rfl⟩ := exists_wrongLink hw
    · exact .inl rfl
    · exact .inr rfl

theorem linkAt?_wrongLink (hw : w ∈ wrongLinks) (t : Text) :
    linkAt? (w ++ t) = some (.invalidLink, 2) := by
  obtain ⟨c, rfl, rfl | rfl⟩ := exists_wrongLink hw
  · have hshaft : shaft? ('-' :: '>' :: t) = none := by
      simp [shaft?, runLength]
    simp [linkAt?, textLink?, opensTextLink, plainLink?, invalidLink?, hshaft, Text.startsWith,
      List.isPrefixOf, runLength]
  · have hshaft : shaft? ('=' :: '>' :: t) = none := by
      simp [shaft?, runLength]
    simp [linkAt?, textLink?, opensTextLink, plainLink?, invalidLink?, hshaft, Text.startsWith,
      List.isPrefixOf, runLength]

theorem linkAt?_arrow (t : Text) : linkAt? ('-' :: '-' :: '>' :: t) = some (.link, 3) := by
  have hshaft : shaft? ('-' :: '-' :: '>' :: t) = some 2 := by
    simp [shaft?, runLength]
  simp [linkAt?, textLink?, plainLink?, hshaft, headLength]

/-! ## Labels -/

/-- No link goes on with a character that links do not have. -/
theorem startsLink_append {a : Text} {b : Char} (hb : isLinkChar b = false) (v : Text) :
    startsLink (a ++ b :: v) = startsLink a := by
  have hstart : ∀ p : Text, p.all isLinkChar = true →
      (a ++ b :: v).startsWith p = a.startsWith p := by
    intro p hp
    refine Text.startsWith_append ?_
    rintro _ ⟨⟩ hm
    rw [List.all_eq_true.mp hp b hm] at hb
    cases hb
  simp only [startsLink, List.any_cons, List.any_nil]
  rw [hstart _ (by decide), hstart _ (by decide), hstart _ (by decide), hstart _ (by decide),
    hstart _ (by decide), hstart _ (by decide), hstart _ (by decide), hstart _ (by decide)]

/-- Whether a link comes next, behind white space, is the same in both texts. -/
theorem Swapped.startsLink (h : Swapped u old new) :
    Flowchart.startsLink old.trimStart = Flowchart.startsLink new.trimStart := by
  cases h with
  | intro hw hu old new =>
    obtain ⟨c, rfl, hc⟩ := exists_wrongLink hw
    have hwhite : isWhiteSpace c = false := by rcases hc with rfl | rfl <;> decide
    have hdrop : ∀ (d : Char) (v : Text), isWhiteSpace d = false →
        (u ++ d :: v).trimStart = u.trimStart ++ d :: v := by
      intro d v hd
      unfold Text.trimStart
      rw [List.dropWhile_append]
      split
      · rename_i hempty
        rw [List.isEmpty_iff.mp hempty]
        simp [hd]
      · rfl
    rw [List.cons_append, hdrop _ _ hwhite, hdrop _ _ (by decide)]
    rcases List.eq_nil_or_concat u.trimStart with hnil | ⟨v, b, hlast⟩
    · rw [hnil]
      rcases hc with rfl | rfl
      all_goals rfl
    · have hb : isLinkChar b = false := by
        refine hu b ?_
        have hsplit := List.takeWhile_append_dropWhile (p := isWhiteSpace) (l := u)
        rw [show u.dropWhile isWhiteSpace = v.concat b from hlast, List.concat_eq_append,
          ← List.append_assoc] at hsplit
        rw [← hsplit]
        simp
      rw [hlast, List.concat_eq_append, List.append_assoc, List.append_assoc]
      exact (startsLink_append hb _).trans (startsLink_append hb _).symm

/-- Whether a link follows white space on the line is the same in both texts. -/
theorem Swapped.linkFollows (h : Swapped u old new) :
    Flowchart.startsLink (Text.trimStart (Cursor.lineRest old)) =
      Flowchart.startsLink (Text.trimStart (Cursor.lineRest new)) := by
  rcases h.lineRest with ⟨-, hline⟩ | ⟨-, hline⟩
  · rw [hline]
  · exact hline.startsLink

/-- Where an unquoted label stops: at the end of the line, at a closing bracket that closes no
parenthesis of the label, and at white space if a link follows it. -/
def labelStops (parenCloses : Bool) (depth : Nat) (c : Char) (link : Bool) : Prop :=
  (c = '\n' ∨ c = '\r') ∨ (isWhiteSpace c && link) = true ∨
    c = ')' ∧ (parenCloses = true ∨ depth = 0) ∨ c = ']' ∨ c = '}'

/-- How deep in parentheses a label is behind a character. -/
def depthBehind (parenCloses : Bool) (depth : Nat) (c : Char) : Nat :=
  if parenCloses then depth
  else if c = '(' then depth + 1
  else if c = ')' then depth - 1
  else depth

theorem labelText_stop {parenCloses : Bool} {depth : Nat} {c : Char}
    (h : labelStops parenCloses depth c (startsLink (Text.trimStart (Cursor.lineRest (c :: t))))) :
    labelText parenCloses depth (c :: t) = [] := by
  unfold labelStops at h
  unfold labelText
  grind

theorem labelText_go {parenCloses : Bool} {depth : Nat} {c : Char}
    (h : ¬ labelStops parenCloses depth c
      (startsLink (Text.trimStart (Cursor.lineRest (c :: t))))) :
    labelText parenCloses depth (c :: t) =
      c :: labelText parenCloses (depthBehind parenCloses depth c) t := by
  unfold labelStops at h
  conv_lhs => unfold labelText
  unfold depthBehind
  grind

/-- A label that is read to where it stops is read so in both texts, and a link does not come right
behind it. -/
theorem Swapped.labelText (h : Swapped u old new) {parenCloses : Bool} {depth : Nat}
    (hl : Flowchart.labelText parenCloses depth (x ++ old) = x) :
    u ≠ [] ∧ Flowchart.labelText parenCloses depth (x ++ new) = x := by
  induction x generalizing depth with
  | nil =>
    rw [List.nil_append] at hl ⊢
    have hfollows := h.linkFollows
    cases h with
    | intro hw hu old new =>
      obtain ⟨c, rfl, hc⟩ := exists_wrongLink hw
      cases u with
      | nil =>
        exfalso
        rw [List.nil_append, List.cons_append, labelText_go] at hl
        · cases hl
        · have hwhite : isWhiteSpace c = false := by rcases hc with rfl | rfl <;> decide
          rcases hc with rfl | rfl
          all_goals simp [labelStops, hwhite]
      | cons d u =>
        refine ⟨List.cons_ne_nil _ _, ?_⟩
        rw [List.cons_append] at hl hfollows ⊢
        by_cases hstop : labelStops parenCloses depth d (Flowchart.startsLink
          (Text.trimStart (Cursor.lineRest (d :: (u ++ ([c, '>'] ++ old))))))
        · exact labelText_stop (hfollows ▸ hstop)
        · rw [labelText_go hstop] at hl
          cases hl
  | cons c x ih =>
    rw [List.cons_append] at hl ⊢
    by_cases hstop : labelStops parenCloses depth c (Flowchart.startsLink
      (Text.trimStart (Cursor.lineRest (c :: (x ++ old)))))
    · rw [labelText_stop hstop] at hl
      cases hl
    · rw [labelText_go hstop, List.cons.injEq] at hl
      obtain ⟨hne, hrest⟩ := ih hl.2
      have hfollows := (h.append (x := c :: x) fun hu => absurd hu hne).linkFollows
      rw [List.cons_append, List.cons_append] at hfollows
      rw [labelText_go (hfollows ▸ hstop), hrest]
      exact ⟨hne, rfl⟩

/-! ## Words -/

/-- Whether a word goes on with the next character. -/
def wordGoes (c : Char) (rest : Text) : Bool :=
  isIdentChar c || (c == '-' && rest.head?.any isAlphanumeric)

theorem wordAt_cons (c : Char) (rest : Text) :
    wordAt (c :: rest) = if wordGoes c rest then c :: wordAt rest else [] := rfl

/-- A word that is read to its end is read so in both texts. -/
theorem Swapped.wordAt (h : Swapped u old new) (hx : Flowchart.wordAt (x ++ old) = x) :
    Flowchart.wordAt (x ++ new) = x := by
  induction x with
  | nil =>
    rw [List.nil_append] at hx ⊢
    cases h with
    | @intro w hw hu old new =>
      cases u with
      | nil => rfl
      | cons d u =>
        have htail : Swapped u (u ++ (w ++ old)) (u ++ '-' :: '-' :: '>' :: new) := by
          refine .intro hw (fun c hc => hu c ?_) old new
          rw [List.getLast?_cons, Option.mem_def.mp hc]
          rfl
        rw [List.cons_append, wordAt_cons, wordGoes] at hx ⊢
        rw [← htail.any_head? (by decide) (by decide)]
        split at hx
        · cases hx
        · rename_i hstop
          exact if_neg hstop
  | cons c x ih =>
    have hhead : (x ++ old).head?.any isAlphanumeric = (x ++ new).head?.any isAlphanumeric := by
      cases x with
      | nil => exact h.any_head? (by decide) (by decide)
      | cons d x => rfl
    rw [List.cons_append, wordAt_cons, wordGoes] at hx ⊢
    rw [← hhead]
    split at hx
    · rename_i hgoes
      rw [if_pos hgoes, ih (List.cons.inj hx).2]
    · cases hx

/-- A word does not end with a dash where no letter or number comes next. -/
theorem wordAt_last (hx : wordAt (x ++ t) = x) (ht : t.head?.any isAlphanumeric = false) :
    ∀ c ∈ x.getLast?, isIdentChar c = true := by
  induction x with
  | nil => simp
  | cons d x ih =>
    rw [List.cons_append, wordAt_cons] at hx
    split at hx
    · rename_i hgoes
      have hrest := ih (List.cons.inj hx).2
      cases x with
      | nil =>
        intro c hc
        cases hc
        simpa [wordGoes, ht] using hgoes
      | cons e x =>
        intro c hc
        rw [List.getLast?_cons_cons] at hc
        exact hrest c hc
    · cases hx

/-! ## One text or the other -/

/-- A text, or what it is with an arrow for a wrong link. -/
inductive Kept (old new : Text) : Prop where
  | same (h : old = new)
  | swapped {u : Text} (h : Swapped u old new)

namespace Kept

theorem startsWith (h : Kept old new) {p : Text} (hdash : '-' ∉ p) (hequal : '=' ∉ p) :
    old.startsWith p = new.startsWith p := by
  cases h with
  | same h => rw [h]
  | swapped h => exact h.startsWith hdash hequal

theorem lineRest (h : Kept old new) : Kept (Cursor.lineRest old) (Cursor.lineRest new) := by
  cases h with
  | same h => exact .same (by rw [h])
  | swapped h =>
    rcases h.lineRest with ⟨-, hline⟩ | ⟨-, hline⟩
    · exact .same hline
    · exact .swapped hline

theorem restOfLine {a b : Cursor} (h : Kept a.rest b.rest) : Kept a.restOfLine b.restOfLine :=
  h.lineRest

theorem wordAt (h : Kept old new) (hx : Flowchart.wordAt (x ++ old) = x) :
    Flowchart.wordAt (x ++ new) = x := by
  cases h with
  | same h => rwa [← h]
  | swapped h => exact h.wordAt hx

theorem labelText (h : Kept old new) {parenCloses : Bool} {depth : Nat}
    (hx : Flowchart.labelText parenCloses depth (x ++ old) = x) :
    Flowchart.labelText parenCloses depth (x ++ new) = x := by
  cases h with
  | same h => rwa [← h]
  | swapped h => exact (h.labelText hx).2

/-- A label does not stop before a link, so what comes next is the same. -/
theorem head?_of_labelText (h : Kept old new) {parenCloses : Bool} {depth : Nat}
    (hx : Flowchart.labelText parenCloses depth (x ++ old) = x) :
    (x ++ old).head? = (x ++ new).head? := by
  cases h with
  | same h => rw [h]
  | @swapped u h =>
    have hne := (h.labelText hx).1
    cases h with
    | intro hw hu old new =>
      obtain ⟨c, u, rfl⟩ := List.exists_cons_of_ne_nil hne
      cases x with
      | nil => rfl
      | cons d x => rfl

/-- The next character is the same, unless a link starts with it. -/
theorem head?_eq (h : Kept old new) (hdash : old.head? ≠ some '-') (hequal : old.head? ≠ some '=') :
    old.head? = new.head? := by
  cases h with
  | same h => rw [h]
  | swapped h =>
    rcases h.head? with hsame | ⟨-, hold | hold, -⟩
    · exact hsame
    · exact absurd hold hdash
    · exact absurd hold hequal

/-- More characters before both texts, unless a link comes next. -/
theorem append (h : Kept old new) (hdash : old.head? ≠ some '-') (hequal : old.head? ≠ some '=') :
    Kept (x ++ old) (x ++ new) := by
  cases h with
  | same h => exact .same (by rw [h])
  | @swapped u h =>
    refine .swapped (h.append ?_)
    rintro rfl
    rcases h.exists_sign with hsign | hsign
    · exact absurd hsign hdash
    · exact absurd hsign hequal

/-- A line with nothing but white space left has no wrong link. -/
theorem takeWhile_of_white (h : Kept old new)
    (hwhite : ∀ c ∈ old.takeWhile (· != '\n'), isWhiteSpace c = true) :
    new.takeWhile (· != '\n') = old.takeWhile (· != '\n') := by
  cases h with
  | same h => rw [h]
  | @swapped u h =>
    cases h with
    | intro hw hu old new =>
      by_cases hn : '\n' ∈ u
      · rw [Cursor.takeWhile_append_of_mem hn, Cursor.takeWhile_append_of_mem hn]
      · exfalso
        obtain ⟨c, rfl, hc⟩ := exists_wrongLink hw
        have hpass : ∀ d ∈ u ++ [c], (d != '\n') = true := by
          intro d hd
          rw [bne_iff_ne]
          rintro rfl
          rcases List.mem_append.mp hd with hd | hd
          · exact hn hd
          · rcases hc with rfl | rfl
            all_goals simp at hd
        rw [List.cons_append, List.append_cons, List.takeWhile_append_of_pos hpass] at hwhite
        have hsign := hwhite c (by simp)
        rcases hc with rfl | rfl
        all_goals exact absurd hsign (by decide)

theorem bracketAt? (h : Kept old new) {brackets : List String}
    (hb : ∀ b ∈ brackets, '-' ∉ b.toList ∧ '=' ∉ b.toList) :
    Flowchart.bracketAt? brackets old = Flowchart.bracketAt? brackets new := by
  unfold Flowchart.bracketAt?
  induction brackets with
  | nil => rfl
  | cons b rest ih =>
    obtain ⟨hdash, hequal⟩ := hb b List.mem_cons_self
    rw [List.find?_cons, List.find?_cons, h.startsWith hdash hequal,
      ih fun c hc => hb c (List.mem_cons_of_mem b hc)]

end Kept

end Flowchart

end DiagramLint
