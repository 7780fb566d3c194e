-- The quoted spans of a line, told from what a lexer reads there. Of a text in
-- quotes only the marks at its two ends count, so behind an even number of
-- marks the text is a span of its own.
import Mathlib.Algebra.Group.Nat.Even
import DiagramLint.Proofs.Lexing.Tiling
import DiagramLint.Proofs.Repair.Spans

namespace DiagramLint

/-! ## Marks that count -/

theorem quoteIndexes_append (previous : Option Char) (i : Nat) (a b : Text) :
    quoteIndexes previous i (a ++ b) =
      quoteIndexes previous i a ++ quoteIndexes (a.getLast?.or previous) (i + a.length) b := by
  induction a generalizing previous i with
  | nil => rfl
  | cons c a ih =>
    have hlast : (c :: a).getLast?.or previous = a.getLast?.or (some c) := by
      rw [List.getLast?_cons]
      cases a.getLast? <;> rfl
    have hindex : i + (c :: a).length = i + 1 + a.length := by
      rw [List.length_cons]
      omega
    rw [List.cons_append, quoteIndexes, quoteIndexes, hlast, hindex]
    split
    · rw [ih, List.cons_append]
    · rw [ih]

theorem quoteIndexes_of_not_mem {t : Text} (h : '"' ∉ t) (previous : Option Char) (i : Nat) :
    quoteIndexes previous i t = [] := by
  induction t generalizing previous i with
  | nil => rfl
  | cons c t ih =>
    rw [List.mem_cons, not_or] at h
    rw [quoteIndexes, if_neg (fun hc => h.1 hc.1.symm), ih h.2]

/-- Behind the mark that opens a text in quotes, only the one that closes it counts. -/
theorem quoteIndexes_of_closed {t image : Text} (h : Quoted.read t = .closed image)
    (previous : Option Char) (i : Nat) (hp : previous = some '\\' → t.head? ≠ some '"') :
    ∃ inner, image = inner ++ ['"'] ∧ quoteIndexes previous i image = [i + inner.length] := by
  fun_induction Quoted.read t generalizing image previous i with
  | case1 => cases h
  | case2 rest ih =>
    obtain ⟨image, himage, rfl⟩ := Quoted.prepend_eq_closed h
    obtain ⟨inner, rfl, hindexes⟩ := ih himage (some '"') (i + 2) fun h => absurd h (by decide)
    refine ⟨'\\' :: '"' :: inner, rfl, ?_⟩
    change quoteIndexes (some '"') (i + 2) (inner ++ ['"']) = _
    rw [hindexes]
    simp
    omega
  | case3 rest => cases h
  | case4 rest =>
    cases h
    refine ⟨[], rfl, ?_⟩
    have hprevious : previous ≠ some '\\' := fun heq => hp heq rfl
    simp [quoteIndexes, hprevious]
  | case5 c rest hescaped hn hq ih =>
    obtain ⟨image, himage, rfl⟩ := Quoted.prepend_eq_closed h
    obtain ⟨inner, rfl, hindexes⟩ := ih himage (some c) (i + 1) (by
      intro hc hhead
      obtain ⟨more, hmore⟩ := List.head?_eq_some_iff.mp hhead
      exact hescaped more (Option.some.inj hc) hmore)
    refine ⟨c :: inner, rfl, ?_⟩
    change quoteIndexes previous i (c :: (inner ++ ['"'])) = _
    rw [quoteIndexes, if_neg (fun hc => hq hc.1), hindexes]
    simp
    omega

/-! ## Spans -/

theorem closing_mem_of_mem_spansOf {s : DelimitedSpan} {l : List Nat} (h : s ∈ spansOf l) :
    s.closing ∈ l := by
  fun_induction spansOf l with
  | case1 a b rest ih =>
    rcases List.mem_cons.mp h with rfl | h
    · exact List.mem_cons_of_mem _ List.mem_cons_self
    · exact List.mem_cons_of_mem _ (List.mem_cons_of_mem _ (ih h))
  | case2 => cases h

theorem spansOf_append {l : List Nat} (h : Even l.length) (a b : Nat) (more : List Nat) :
    spansOf (l ++ a :: b :: more) = spansOf l ++ ⟨a, b⟩ :: spansOf more := by
  fun_induction spansOf l with
  | case1 c d rest ih =>
    rw [List.cons_append, List.cons_append, spansOf, ih, List.cons_append]
    simpa [Nat.even_add_one] using h
  | case2 l hl =>
    cases l with
    | nil => rfl
    | cons c l =>
      cases l with
      | nil => simp at h
      | cons d l => exact absurd rfl (hl c d l)

/-- A text in quotes is the span around its places, if the marks before it on the line come in
pairs and no backslash stands right before it. -/
theorem quoteSpan?_of_closed {lead inner behind : Text}
    (hpairs : Even (quoteIndexes none 0 lead).length) (hlead : lead.getLast? ≠ some '\\')
    (hread : Quoted.read (inner ++ ['"']) = .closed (inner ++ ['"'])) {k : Nat}
    (hk : k ≤ inner.length + 1) :
    quoteSpan? (lead ++ '"' :: (inner ++ '"' :: behind)) (lead.length + k) =
      some ⟨lead.length, lead.length + inner.length + 1⟩ := by
  have hsplit : lead ++ '"' :: (inner ++ '"' :: behind) =
      lead ++ (['"'] ++ ((inner ++ ['"']) ++ behind)) := by simp
  obtain ⟨inner', hinner, hindexes⟩ :=
    quoteIndexes_of_closed hread (some '"') (0 + lead.length + 1) fun h => absurd h (by decide)
  obtain rfl := List.append_cancel_right hinner
  have hopening : quoteIndexes (lead.getLast?.or none) (0 + lead.length) ['"'] =
      [0 + lead.length] := by
    simp [quoteIndexes, hlead]
  unfold quoteSpan?
  rw [hsplit, quoteIndexes_append, quoteIndexes_append _ _ ['"'], hopening,
    quoteIndexes_append _ _ (inner ++ ['"'])]
  change List.find? _ (spansOf (_ ++ (_ ++ (quoteIndexes (some '"') (0 + lead.length + 1) _ ++ _))))
    = _
  rw [hindexes]
  simp only [List.singleton_append]
  rw [spansOf_append hpairs, List.find?_append, List.find?_eq_none.mpr]
  · rw [Option.none_or, List.find?_cons_of_pos]
    · simp only [Option.some.injEq, DelimitedSpan.mk.injEq]
      omega
    · simp
      omega
  · -- the spans before it have ended
    intro s hs
    obtain ⟨-, hget⟩ := quoteIndexes_getElem (closing_mem_of_mem_spansOf hs)
    obtain ⟨hlt, -⟩ := List.getElem?_eq_some_iff.mp hget
    simp
    omega

/-- Inside of the span of a text in quotes is what stands between its marks. -/
theorem inside_of_closed {lead inner behind : Text}
    (hread : Quoted.read (inner ++ ['"']) = .closed (inner ++ ['"'])) :
    (⟨lead.length, lead.length + inner.length + 1⟩ : DelimitedSpan).inside
      (lead ++ '"' :: (inner ++ '"' :: behind)) = (lead.length + 1, inner) := by
  have hinner : ((lead ++ '"' :: (inner ++ '"' :: behind)).drop (lead.length + 1)).take
      (lead.length + inner.length + 1 - (lead.length + 1)) = inner := by
    have hlength : lead.length + inner.length + 1 - (lead.length + 1) = inner.length := by omega
    rw [← List.drop_drop, List.drop_left, hlength]
    exact List.take_left
  unfold DelimitedSpan.inside
  dsimp only
  rw [hinner, if_neg]
  -- the first mark in the text would close it
  cases inner with
  | nil => simp
  | cons c inner =>
    have hc : c ≠ '"' := by
      rintro rfl
      simpa using Quoted.closed.inj hread
    simp [hc]

end DiagramLint
