-- Byte offsets that lie between two characters. Such an offset splits the
-- text into the characters before it and the characters behind it, and a
-- run of such offsets cuts the text into pieces.
import DiagramLint.Text.Basic

namespace DiagramLint.Text

theorem byteSize_eq_zero {t : Text} (h : byteSize t = 0) : t = [] := by
  cases t with
  | nil => rfl
  | cons c rest =>
    have := c.utf8Size_pos
    simp only [byteSize_cons] at h
    omega

theorem byteSize_le_of_isPrefix {a t : Text} (h : a <+: t) : byteSize a ≤ byteSize t := by
  obtain ⟨b, rfl⟩ := h
  simp

/-! ## Offsets between characters -/

/-- An offset between two characters of a text, or at one of its ends. -/
def Boundary (t : Text) (n : Nat) : Prop :=
  ∃ before behind, t = before ++ behind ∧ byteSize before = n

theorem boundary_append (a b : Text) : Boundary (a ++ b) (byteSize a) := ⟨a, b, rfl, rfl⟩

theorem boundary_zero (t : Text) : Boundary t 0 := ⟨[], t, rfl, rfl⟩

theorem boundary_byteSize (t : Text) : Boundary t (byteSize t) := ⟨t, [], by simp, rfl⟩

theorem splitAtByte_append (a b : Text) : splitAtByte (byteSize a) (a ++ b) = some (a, b) := by
  induction a with
  | nil => simp [splitAtByte]
  | cons c rest ih =>
    have hc := c.utf8Size_pos
    obtain ⟨n, hn⟩ : ∃ n, byteSize (c :: rest) = n + 1 :=
      ⟨byteSize (c :: rest) - 1, by simp only [byteSize_cons]; omega⟩
    have hle : c.utf8Size ≤ n + 1 := by simp only [byteSize_cons] at hn; omega
    have hsub : n + 1 - c.utf8Size = byteSize rest := by simp only [byteSize_cons] at hn; omega
    rw [hn, List.cons_append, splitAtByte, if_pos hle, hsub, ih]
    rfl

theorem charsBefore_append (a b : Text) : charsBefore (byteSize a) (a ++ b) = a.length := by
  induction a with
  | nil => simp [charsBefore]
  | cons c rest ih =>
    have hc := c.utf8Size_pos
    obtain ⟨n, hn⟩ : ∃ n, byteSize (c :: rest) = n + 1 :=
      ⟨byteSize (c :: rest) - 1, by simp only [byteSize_cons]; omega⟩
    have hsub : n + 1 - c.utf8Size = byteSize rest := by simp only [byteSize_cons] at hn; omega
    rw [hn, List.cons_append, charsBefore, hsub, ih, List.length_cons]

/-- Of two splits of one text, the one at the smaller offset comes first. -/
theorem prefix_of_byteSize_le {a b a' b' : Text} (h : a ++ b = a' ++ b')
    (hle : byteSize a ≤ byteSize a') : a <+: a' := by
  have ha : a <+: a' ++ b' := ⟨b, h⟩
  rcases List.prefix_or_prefix_of_prefix ha (List.prefix_append a' b') with hp | hp
  · exact hp
  · obtain ⟨m, rfl⟩ := hp
    have hm : m = [] := byteSize_eq_zero (by simp only [byteSize_append] at hle; omega)
    simp [hm]

/-! ## Pieces -/

/-- The characters of a text between two byte offsets. -/
def slice (t : Text) (start stop : Nat) : Text :=
  (t.take (charsBefore stop t)).drop (charsBefore start t)

theorem slice_append (a b c : Text) :
    slice (a ++ b ++ c) (byteSize a) (byteSize (a ++ b)) = b := by
  have h1 : charsBefore (byteSize a) (a ++ b ++ c) = a.length := by
    rw [List.append_assoc, charsBefore_append]
  have h2 : charsBefore (byteSize (a ++ b)) (a ++ b ++ c) = (a ++ b).length :=
    charsBefore_append (a ++ b) c
  rw [slice, h1, h2, List.take_left, List.drop_left]

/-- Two offsets between characters cut a text into three pieces, the middle one its slice. -/
theorem exists_slice {t : Text} {m n : Nat} (hm : Boundary t m) (hn : Boundary t n) (h : m ≤ n) :
    ∃ a c, t = a ++ slice t m n ++ c ∧ byteSize a = m ∧ byteSize (a ++ slice t m n) = n := by
  obtain ⟨a, b, rfl, rfl⟩ := hm
  obtain ⟨a', c, heq, rfl⟩ := hn
  obtain ⟨mid, rfl⟩ := prefix_of_byteSize_le heq h
  rw [heq, slice_append]
  exact ⟨a, c, rfl, rfl, rfl⟩

theorem byteSize_slice {t : Text} {m n : Nat} (hm : Boundary t m) (hn : Boundary t n)
    (h : m ≤ n) : byteSize (slice t m n) = n - m := by
  obtain ⟨a, c, -, ha, hb⟩ := exists_slice hm hn h
  simp only [byteSize_append] at hb
  omega

/-- Neighbouring slices join. -/
theorem slice_append_slice {t : Text} {l m n : Nat} (hl : Boundary t l) (hm : Boundary t m)
    (hn : Boundary t n) (h1 : l ≤ m) (h2 : m ≤ n) :
    slice t l m ++ slice t m n = slice t l n := by
  obtain ⟨a, b, rfl, rfl⟩ := hl
  obtain ⟨a', b', heq, rfl⟩ := hm
  obtain ⟨u, rfl⟩ := prefix_of_byteSize_le heq h1
  obtain ⟨a'', w, heq', rfl⟩ := hn
  obtain ⟨v, rfl⟩ := prefix_of_byteSize_le (heq ▸ heq') h2
  rw [heq', slice_append (a ++ u) v w, List.append_assoc a u v, slice_append a (u ++ v) w,
    ← List.append_assoc, List.append_assoc (a ++ u) v w, slice_append a u (v ++ w)]

/-- Up to an offset between characters a text is the slice from its start. -/
theorem slice_zero_append (a b : Text) : slice (a ++ b) 0 (byteSize a) = a := by
  simpa using slice_append [] a b

theorem slice_byteSize_append (a b : Text) :
    slice (a ++ b) (byteSize a) (byteSize (a ++ b)) = b := by
  simpa using slice_append a b []

end DiagramLint.Text
