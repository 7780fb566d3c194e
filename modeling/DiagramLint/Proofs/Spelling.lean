-- Misspelled words: the keyword that a word is taken for is one of the
-- keywords, and the hint that names it hands it on.
import DiagramLint.Proofs.Text.Words
import DiagramLint.Spelling

namespace DiagramLint

/-! ## The characters of words -/

theorem isWordChar_of_isWhiteSpace {c : Char} (h : isWhiteSpace c = true) :
    isWordChar c = false := by
  have hident := isIdentChar_of_isWhiteSpace h
  rw [isIdentChar, Bool.or_eq_false_iff] at hident
  have hdash : c ≠ '-' := by
    rintro rfl
    exact absurd h (by decide)
  simp [isWordChar, hident.1, hident.2, hdash]

theorem isWordChar_of_isIdentChar {c : Char} (h : isIdentChar c = true) : isWordChar c = true := by
  simp only [isIdentChar, Bool.or_eq_true] at h
  rcases h with h | h
  · simp [isWordChar, h]
  · simp [isWordChar, h]

/-! ## The nearest keyword -/

theorem nearer_mem {word keyword : String} {keywords : List String} {best : Option (Nat × String)}
    (hb : ∀ b ∈ best, b.2 ∈ keywords) (hk : keyword ∈ keywords) :
    ∀ b ∈ nearer word best keyword, b.2 ∈ keywords := by
  intro b hm
  unfold nearer at hm
  dsimp only at hm
  split at hm
  · rw [← Option.some.inj hm]
    exact hk
  · exact hb b hm

/-- The keyword that a word misspells is one of the keywords. -/
theorem nearestKeyword_mem {word keyword : String} {keywords : List String}
    (h : nearestKeyword word keywords = some keyword) : keyword ∈ keywords := by
  have hfold : ∀ (l : List String) (best : Option (Nat × String)), (∀ k ∈ l, k ∈ keywords) →
      (∀ b ∈ best, b.2 ∈ keywords) →
      ∀ b ∈ l.foldl (nearer (lowercase word)) best, b.2 ∈ keywords := by
    intro l
    induction l with
    | nil => exact fun best _ hb => hb
    | cons k l ih =>
      intro best hl hb
      rw [List.foldl_cons]
      exact ih (nearer (lowercase word) best k) (fun k hk => hl k (List.mem_cons_of_mem _ hk))
        (nearer_mem hb (hl k List.mem_cons_self))
  unfold nearestKeyword at h
  split at h
  · cases h
  · obtain ⟨b, hb, rfl⟩ := Option.map_eq_some_iff.mp h
    exact hfold keywords none (fun _ hk => hk) (fun _ hb => by cases hb) b hb

/-- A keyword is not taken for a misspelled word. -/
theorem nearestKeyword_ne {word keyword : String} {keywords : List String}
    (h : nearestKeyword word keywords = some keyword) : keyword ≠ word := by
  rintro rfl
  have hmem := nearestKeyword_mem h
  simp [nearestKeyword, hmem] at h

/-! ## Hints -/

/-- What a hint names is a word. -/
theorem hintedKeyword?_spec {hint keyword : String} (h : hintedKeyword? hint = some keyword) :
    keyword.toList ≠ [] ∧ ∀ c ∈ keyword.toList, isWordChar c = true := by
  unfold hintedKeyword? at h
  split at h
  · dsimp only at h
    split at h
    · rename_i hword
      rw [← Option.some.inj h, String.toList_ofList]
      simpa using hword.2
    · cases h
  · cases h

/-- A hint names the word it was made for. -/
theorem hintedKeyword?_keywordHint {word : String} (hne : word.toList ≠ [])
    (hword : ∀ c ∈ word.toList, isWordChar c = true) :
    hintedKeyword? (keywordHint word) = some word := by
  have htext : (keywordHint word).toList = keywordHintStart.toList ++ (word.toList ++ ['\'']) := by
    simp [keywordHint, String.toList_append]
  have hstart : keywordHintStart.toList.isPrefixOf (keywordHint word).toList = true := by
    rw [htext, List.isPrefixOf_iff_prefix]
    exact List.prefix_append _ _
  have hquoted :
      (keywordHint word).toList.drop keywordHintStart.length = word.toList ++ ['\''] := by
    rw [htext, ← String.length_toList]
    exact List.drop_left
  unfold hintedKeyword?
  rw [if_pos hstart]
  simp only [hquoted, List.dropLast_concat, List.getLast?_concat, String.ofList_toList]
  rw [if_pos]
  exact ⟨trivial, by simpa using hne, List.all_eq_true.mpr hword⟩

theorem hintedKeyword?_of_mem {keywords : List String} {keyword : String}
    (hwords : keywords.all (fun w => !w.toList.isEmpty && w.toList.all isWordChar) = true)
    (h : keyword ∈ keywords) : hintedKeyword? (keywordHint keyword) = some keyword := by
  have hkeyword := List.all_eq_true.mp hwords keyword h
  simp only [Bool.and_eq_true, Bool.not_eq_true', List.isEmpty_eq_false_iff] at hkeyword
  exact hintedKeyword?_keywordHint hkeyword.1 (List.all_eq_true.mp hkeyword.2)

end DiagramLint
