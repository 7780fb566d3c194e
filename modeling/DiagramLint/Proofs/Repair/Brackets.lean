-- The repair of a wrong closing bracket. It reads the line backwards and
-- counts brackets, so it finds the opening bracket of a shape as long as the
-- brackets in the label match; the shape with the longest opening bracket
-- that ends there then says how to close it.
import DiagramLint.Proofs.Repair.Placing
import DiagramLint.Proofs.Repair.Proposals

namespace DiagramLint

namespace Shape

variable {shapes : List Shape}

/-- How many brackets are open behind a text, when `level` are open before it; none if it closes
one that is not open. -/
def levelAfter? (shapes : List Shape) : (level : Nat) → Text → Option Nat
  | level, [] => some level
  | level, c :: rest =>
    if opens shapes c then levelAfter? shapes (level + 1) rest
    else if closes shapes c then
      match level with
      | 0 => none
      | level + 1 => levelAfter? shapes level rest
    else levelAfter? shapes level rest

/-- Every bracket of a text is opened and closed in it. -/
def Matched (shapes : List Shape) (t : Text) : Prop := levelAfter? shapes 0 t = some 0

instance (shapes : List Shape) (t : Text) : Decidable (Matched shapes t) :=
  inferInstanceAs (Decidable (_ = _))

/-- Text in which the level changes from `m` to `n` is passed backwards from `n` to `m`. -/
theorem unmatchedOpener?_append {t : Text} {m n : Nat} (h : levelAfter? shapes m t = some n)
    (back : Text) :
    unmatchedOpener? shapes n (t.reverse ++ back) = unmatchedOpener? shapes m back := by
  induction t generalizing m back with
  | nil =>
    cases h
    rfl
  | cons c rest ih =>
    unfold levelAfter? at h
    rw [List.reverse_cons, List.append_assoc, List.singleton_append]
    split at h
    · rename_i ho
      rw [ih h, unmatchedOpener?, if_neg (by simp [ho]), if_pos ho]
    · rename_i ho
      split at h
      · rename_i hcl
        split at h
        · cases h
        · rw [ih h]
          conv => lhs; unfold unmatchedOpener?
          rw [if_pos (by simp [ho, hcl])]
      · rename_i hcl
        rw [ih h]
        conv => lhs; unfold unmatchedOpener?
        rw [if_neg (by simp [hcl]), if_neg ho]

/-- Characters that are no brackets leave the level as it is. -/
theorem levelAfter?_plain {t : Text}
    (h : ∀ c ∈ t, opens shapes c = false ∧ closes shapes c = false) (m : Nat) :
    levelAfter? shapes m t = some m := by
  induction t with
  | nil => rfl
  | cons c rest ih =>
    obtain ⟨ho, hcl⟩ := h c (by simp)
    unfold levelAfter?
    rw [if_neg (by simp [ho]), if_neg (by simp [hcl])]
    exact ih fun d hd => h d (by simp [hd])

/-- Where the line is open right behind `back`, with a label whose brackets match and blanks in
between, that is where the scan stops. -/
theorem unmatchedOpener?_label {label blanks : Text} (hlabel : Matched shapes label)
    (hblanks : ∀ c ∈ blanks, opens shapes c = false ∧ closes shapes c = false) {c : Char}
    (hc : opens shapes c = true) (back : Text) :
    unmatchedOpener? shapes 0 ((label ++ blanks).reverse ++ c :: back) = some (c :: back) := by
  rw [List.reverse_append, List.append_assoc,
    unmatchedOpener?_append (levelAfter?_plain hblanks 0), unmatchedOpener?_append hlabel,
    unmatchedOpener?, if_neg (by simp [hc]), if_pos hc]

end Shape

/-! ## The built-in shapes -/

theorem bracketShapes_opens_iff (c : Char) :
    Shape.opens bracketShapes c = true ↔ c = '(' ∨ c = '[' ∨ c = '{' := by
  simp [Shape.opens, bracketShapes]
  grind

/-- Of the shapes that end at an opening bracket with no bracket before it, the longest is the one
that is opened. -/
theorem longest_bracketShape {shape : Shape} (hs : shape ∈ bracketShapes) {back : Text}
    (hback : ∀ c ∈ back.head?, Shape.opens bracketShapes c = false) :
    (bracketShapes.filter fun s => s.opener.reverse.isPrefixOf (shape.opener.reverse ++ back)).foldl
      Shape.longer none = some shape := by
  have hplain : ∀ c ∈ back.head?, c ≠ '(' ∧ c ≠ '[' ∧ c ≠ '{' := by
    intro c hc
    have := hback c hc
    rw [← Bool.not_eq_true, bracketShapes_opens_iff] at this
    simpa [not_or] using this
  simp only [bracketShapes, List.mem_cons, List.not_mem_nil, or_false] at hs
  cases back with
  | nil => rcases hs with rfl | rfl | rfl | rfl | rfl | rfl | rfl | rfl <;> decide
  | cons d rest =>
    obtain ⟨h1, h2, h3⟩ := hplain d rfl
    have := h1.symm
    have := h2.symm
    have := h3.symm
    rcases hs with rfl | rfl | rfl | rfl | rfl | rfl | rfl | rfl <;>
      simp [bracketShapes, List.isPrefixOf, Shape.longer, *]

/-! ## The repair -/

/-- Over closing brackets, the repair writes the closing bracket of the shape left open, unless it
stands there. -/
theorem repairBracket_of_span {shapes : List Shape} {t : Text} {d : Diagnostic} {c : Caret}
    (hc : Caret.of? t d = some c) (hfits : c.Fits d) (hne : c.spanned d ≠ [])
    (hall : (c.spanned d).all (Shape.closes shapes) = true) :
    repairBracket shapes t d = .ok ((Shape.unmatched? shapes c).bind fun found =>
      if c.spanned d = found.2.closer then none
      else some (.safe (.replaceSpan d.line (c.index + 1) (c.spanned d).length found.2.closer))) := by
  have hspan : c.span d = .ok (c.spanned d) := Caret.span_eq_ok_iff.mpr ⟨hfits, rfl⟩
  have hclosing : (!(c.spanned d).isEmpty && (c.spanned d).all (Shape.closes shapes)) = true := by
    simpa [hall] using hne
  unfold repairBracket
  rw [hc]
  cases hu : Shape.unmatched? shapes c with
  | none => simp only [hu]; rfl
  | some found => simp only [hu, hspan, Except.map, hclosing, if_true]; rfl

/-- Characters on one line before a place stand on the line of that place. -/
theorem LineAt.exists_lead {t a b lead ahead : Text} (h : LineAt t (a ++ b) lead ahead)
    (hb : '\n' ∉ b) : ∃ x, lead = x ++ b ∧ x <:+ a := by
  have hcolumn := h.column_eq
  rw [placeAfter, List.foldl_append, foldl_advance_of_not_mem _ hb] at hcolumn
  have hpos := placeAfter_column_pos a
  obtain ⟨x, rfl⟩ := List.suffix_of_suffix_length_le (List.suffix_append a b) h.lead_suffix (by
    change (placeAfter a).column + _ = _ at hcolumn
    omega)
  exact ⟨x, rfl, (List.suffix_append_self_iff).mp h.lead_suffix⟩

end DiagramLint
