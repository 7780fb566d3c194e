-- The numbers of pie charts. The lexer takes digits and points behind a first
-- digit, so of the numbers that can be written it meets the plain ones only,
-- and a second point is all that can be wrong with one.
import Mathlib.Data.List.TakeWhile
import DiagramLint.Pie.Parser
import DiagramLint.Proofs.Pie.Lexer

namespace DiagramLint.Pie

/-! ## Numerals -/

/-- What the lexer takes for a number: digits and points behind a first digit, which may have a
minus sign. -/
def IsNumeral (image : Text) : Prop :=
  ∃ sign first rest, image = sign ++ first :: rest ∧ (sign = [] ∨ sign = ['-']) ∧
    first.isDigit = true ∧ ∀ c ∈ rest, isNumberChar c = true

theorem readSign_of_isDigit {c : Char} {rest : Text} (h : c.isDigit = true) :
    Binary64.readSign (c :: rest) = (false, c :: rest) := by
  unfold Binary64.readSign
  split
  · rename_i heq
    cases heq
    exact absurd h (by decide)
  · rename_i heq
    cases heq
    exact absurd h (by decide)
  · rfl

/-- The names of what is no finite number start with a letter, a numeral with a digit. -/
theorem map_toLower_ne {c : Char} (rest : Text) {name : Text} (h : c.isDigit = true)
    (hname : name.head?.all (!·.isDigit) = true) : (c :: rest).map Char.toLower ≠ name := by
  rintro rfl
  have hletter : c.toLower.isDigit = false := by simpa using hname
  have hsame : c.toLower = c := by
    simp only [Char.isDigit, Bool.and_eq_true, decide_eq_true_iff, ge_iff_le,
      UInt32.le_iff_toNat_le] at h
    have hbounds : '9'.val.toNat = 57 ∧ 'A'.val.toNat = 65 := by decide
    unfold Char.toLower
    rw [dif_neg]
    simp only [ge_iff_le, UInt32.le_iff_toNat_le]
    omega
  rw [hsame, h] at hletter
  cases hletter

/-- Digits and points behind the digits of a fraction are no power of ten. -/
theorem power?_isSome_iff {t : Text} (h : ∀ c ∈ t, isNumberChar c = true) :
    (Binary64.power? (t.dropWhile Char.isDigit)).isSome = true ↔ '.' ∉ t := by
  induction t with
  | nil => simp [Binary64.power?]
  | cons c t ih =>
    obtain ⟨hc, ht⟩ := List.forall_mem_cons.mp h
    by_cases hdigit : c.isDigit = true
    · have hpoint : '.' ≠ c := by
        rintro rfl
        cases hdigit
      rw [List.dropWhile_cons_of_pos hdigit, ih ht]
      simp [hpoint]
    · obtain rfl : c = '.' := by simpa [isNumberChar, hdigit] using hc
      simp [Binary64.power?]

/-- A number can be read exactly if it has at most one point. -/
theorem ofText?_isSome_iff {image : Text} (h : IsNumeral image) :
    (Binary64.ofText? image).isSome = true ↔ image.count '.' ≤ 1 := by
  obtain ⟨sign, first, rest, rfl, hsign, hfirst, hrest⟩ := h
  have hread : ∃ negative,
      Binary64.readSign (sign ++ first :: rest) = (negative, first :: rest) := by
    rcases hsign with rfl | rfl
    · exact ⟨_, readSign_of_isDigit hfirst⟩
    · exact ⟨true, rfl⟩
  have hcount : (sign ++ first :: rest).count '.' = rest.count '.' := by
    have hpoint : first ≠ '.' := by
      rintro rfl
      cases hfirst
    rcases hsign with rfl | rfl
    · simp [hpoint]
    · simp [hpoint]
  obtain ⟨negative, hread⟩ := hread
  -- the digits before the first point, and what stands behind them
  have hsplit := List.takeWhile_append_dropWhile (p := Char.isDigit) (l := rest)
  have hdrop : (first :: rest).drop ((first :: rest).takeWhile Char.isDigit).length =
      rest.dropWhile Char.isDigit := by
    rw [List.takeWhile_cons_of_pos hfirst, List.length_cons, List.drop_succ_cons]
    calc rest.drop (rest.takeWhile Char.isDigit).length
        = (rest.takeWhile Char.isDigit ++ rest.dropWhile Char.isDigit).drop
            (rest.takeWhile Char.isDigit).length := by rw [hsplit]
      _ = rest.dropWhile Char.isDigit := List.drop_left
  have hnone : (rest.takeWhile Char.isDigit).count '.' = 0 := by
    refine List.count_eq_zero.mpr fun hm => ?_
    cases List.mem_takeWhile_imp hm
  have hleft : rest.count '.' = (rest.dropWhile Char.isDigit).count '.' := by
    conv_lhs => rw [← hsplit]
    rw [List.count_append, hnone, Nat.zero_add]
  have hchars : ∀ c ∈ rest.dropWhile Char.isDigit, isNumberChar c = true := fun c hc =>
    hrest c ((List.dropWhile_sublist _).mem hc)
  rw [hcount, hleft, Binary64.ofText?, hread]
  dsimp only
  rw [if_neg, if_neg (map_toLower_ne rest hfirst rfl), Binary64.readDigits, hdrop]
  · cases hafter : rest.dropWhile Char.isDigit with
    | nil => simp [List.takeWhile_cons_of_pos hfirst, Binary64.power?]
    | cons c more =>
      rw [hafter] at hchars
      obtain ⟨hc, hmore⟩ := List.forall_mem_cons.mp hchars
      have hstop := List.head?_dropWhile_not Char.isDigit rest
      rw [hafter] at hstop
      obtain rfl : c = '.' := by
        have hdigit : c.isDigit = false := by simpa using hstop
        simpa [isNumberChar, hdigit] using hc
      have hpower := power?_isSome_iff hmore
      simp [List.takeWhile_cons_of_pos hfirst, hpower, List.count_eq_zero]
  · rintro (h | h)
    · exact map_toLower_ne rest hfirst rfl h
    · exact map_toLower_ne rest hfirst rfl h

/-! ## What the lexer takes -/

/-- A word is no number. -/
theorem wordKind_ne_number (s : Reader Kind) (w : String) : wordKind s w ≠ .number := by
  unfold wordKind
  dsimp only
  split
  · decide
  · split
    · decide
    · split <;> decide

/-- The image of a number, as the step takes it. -/
theorem isNumeral_lexeme {s : Cursor} {c : Char} {rest : Text} (hrest : s.rest = c :: rest)
    (hc : (c.isDigit || (c == '-' && rest.head?.any Char.isDigit)) = true) :
    IsNumeral (String.ofList (s.rest.take ((rest.takeWhile isNumberChar).length + 1))).toList := by
  have hall : ∀ d ∈ rest.takeWhile isNumberChar, isNumberChar d = true := fun d hd =>
    List.mem_takeWhile_imp hd
  have htake : rest.take (rest.takeWhile isNumberChar).length = rest.takeWhile isNumberChar :=
    (List.prefix_iff_eq_take.mp (List.takeWhile_prefix _)).symm
  rw [String.toList_ofList, hrest, List.take_succ_cons, htake]
  rcases Bool.or_eq_true_iff.mp hc with hdigit | hminus
  · exact ⟨[], c, _, rfl, .inl rfl, hdigit, hall⟩
  · obtain ⟨rfl, hnext⟩ : c = '-' ∧ rest.head?.any Char.isDigit = true := by simpa using hminus
    cases rest with
    | nil => cases hnext
    | cons d rest =>
      have hdigit : d.isDigit = true := by simpa using hnext
      have hnumber : isNumberChar d = true := by simp [isNumberChar, hdigit]
      rw [List.takeWhile_cons_of_pos hnumber] at hall ⊢
      exact ⟨['-'], d, _, rfl, .inr rfl, hdigit, fun e he => hall e (List.mem_cons_of_mem _ he)⟩

theorem lexStep_numeral (s : Reader Kind) : ∀ tok ∈ (lexStep s).tokens, tok.kind = .number →
    IsNumeral tok.image.toList := by
  intro tok hm hk
  unfold lexStep at hm
  split at hm
  · cases hm
  · rename_i c rest hrest
    split at hm
    · cases hm
    · split at hm
      · cases List.mem_singleton.mp hm
        cases hk
      · split at hm
        · cases hm
        · split at hm
          · cases List.mem_singleton.mp hm
            cases hk
          · split at hm
            · unfold quotedString at hm
              split at hm
              · cases List.mem_singleton.mp hm
                cases hk
              · cases hm
            · split at hm
              · rename_i hnumber
                rw [List.mem_singleton.mp hm]
                exact isNumeral_lexeme hrest hnumber
              · obtain ⟨later, htokens, hlater⟩ := word_tokens s
                rw [htokens] at hm
                rcases List.mem_cons.mp hm with rfl | hm
                · exact absurd hk (wordKind_ne_number s _)
                · rw [hlater tok hm] at hk
                  cases hk

/-- Every number that the lexer takes is a numeral. -/
theorem numeral_of_scan {t : Text} {l : Lexed Kind} (hl : scan t = .finished l) :
    ∀ tok ∈ l.tokens, tok.kind = .number → IsNumeral tok.image.toList := by
  have hall : ∀ tok ∈ (Scan.run lexStep .eof (Reader.ofText t)).lexed.tokens,
      tok.kind = .number → IsNumeral tok.image.toList :=
    Scan.tokens_all lexStep_numeral (fun _ hk => by cases hk) _
  rwa [show Scan.run lexStep .eof (Reader.ofText t) = .finished l from hl] at hall

end DiagramLint.Pie
