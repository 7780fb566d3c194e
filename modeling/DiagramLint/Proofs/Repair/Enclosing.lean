-- The span around a place. A balanced text that is cut at the place leaves
-- brackets open before it that are closed behind it, the innermost first, so
-- the two scans from the place outwards end at brackets that match. Of the
-- spans of several delimiters the first of the shortest is taken.
import Mathlib.Data.List.Induction
import Mathlib.Data.List.Pairwise
import DiagramLint.Proofs.FirstLeast
import DiagramLint.Proofs.Repair.Spans

namespace DiagramLint

/-! ## Balanced text -/

/-- Every bracket of a text matches another one of it. -/
inductive Balanced (opener closer : Char) : Text → Prop where
  | nil : Balanced opener closer []
  | other {c : Char} {rest : Text} (ho : c ≠ opener) (hc : c ≠ closer)
      (h : Balanced opener closer rest) : Balanced opener closer (c :: rest)
  | pair {inside rest : Text} (hi : Balanced opener closer inside)
      (hr : Balanced opener closer rest) :
      Balanced opener closer (opener :: (inside ++ closer :: rest))

/-- The two parts of a balanced text: both are balanced but for brackets that the first one leaves
open and the second one closes. -/
inductive Cut (opener closer : Char) : Text → Text → Prop where
  | whole {x y : Text} (hx : Balanced opener closer x) (hy : Balanced opener closer y) :
      Cut opener closer x y
  | around {a b x y : Text} (ha : Balanced opener closer a) (h : Cut opener closer x y)
      (hb : Balanced opener closer b) : Cut opener closer (a ++ opener :: x) (y ++ closer :: b)

variable {opener closer : Char} {a b x y t line : Text} {caret n : Nat} {s s' : DelimitedSpan}

namespace Balanced

theorem append (ha : Balanced opener closer a) (hb : Balanced opener closer b) :
    Balanced opener closer (a ++ b) := by
  induction ha with
  | nil => exact hb
  | other ho hc _ ih => exact .other ho hc ih
  | pair hi _ _ ih =>
    rw [List.cons_append, List.append_assoc, List.cons_append]
    exact .pair hi ih

/-- Read backwards, opening brackets close. -/
theorem reverse (h : Balanced opener closer t) : Balanced closer opener t.reverse := by
  induction h with
  | nil => exact .nil
  | @other c rest ho hc _ ih =>
    rw [List.reverse_cons]
    exact ih.append (.other hc ho .nil)
  | @pair inside rest _ _ ihi ihr =>
    have hpair : Balanced closer opener (closer :: (inside.reverse ++ [opener])) := .pair ihi .nil
    simpa using ihr.append hpair

end Balanced

/-! ## A cut through balanced text -/

namespace Cut

theorem prepend (ha : Balanced opener closer a) (h : Cut opener closer x y) :
    Cut opener closer (a ++ x) y := by
  cases h with
  | whole hx hy => exact .whole (ha.append hx) hy
  | around hb h hc =>
    rw [← List.append_assoc]
    exact .around (ha.append hb) h hc

/-- Text put in at a cut leaves what is around it balanced. -/
theorem balanced (h : Cut opener closer x y) (ht : Balanced opener closer t) :
    Balanced opener closer (x ++ (t ++ y)) := by
  induction h with
  | whole hx hy => exact hx.append (ht.append hy)
  | around ha _ hb ih =>
    rw [List.append_assoc]
    refine ha.append ?_
    have hpair := Balanced.pair ih hb
    simpa using hpair

/-- Behind the last bracket left open the first part is balanced. -/
theorem exists_open (h : Cut opener closer x y) (before : Text) :
    ∃ u v, before ++ opener :: x = u ++ opener :: v ∧ Balanced opener closer v ∧
      before.length ≤ u.length := by
  induction h generalizing before with
  | @whole x y hx _ => exact ⟨before, x, rfl, hx, Nat.le_refl _⟩
  | @around a b x y _ _ _ ih =>
    obtain ⟨u, v, heq, hv, hle⟩ := ih (before ++ opener :: a)
    refine ⟨u, v, by rw [← heq]; simp, hv, ?_⟩
    rw [List.length_append] at hle
    omega

/-- Up to the first bracket that closes one left open the second part is balanced. -/
theorem exists_close (h : Cut opener closer x y) (behind : Text) :
    ∃ u v, y ++ closer :: behind = u ++ closer :: v ∧ Balanced opener closer u ∧
      u.length ≤ y.length := by
  induction h generalizing behind with
  | @whole x y _ hy => exact ⟨y, behind, rfl, hy, Nat.le_refl _⟩
  | @around a b x y _ _ _ ih =>
    obtain ⟨u, v, heq, hu, hle⟩ := ih (b ++ closer :: behind)
    refine ⟨u, v, by rw [← heq]; simp, hu, ?_⟩
    rw [List.length_append]
    omega

end Cut

/-- A balanced text can be cut anywhere. -/
theorem Balanced.cut (h : Balanced opener closer (x ++ y)) : Cut opener closer x y := by
  generalize ht : x ++ y = t at h
  induction h generalizing x y with
  | nil =>
    obtain ⟨rfl, rfl⟩ := List.append_eq_nil_iff.mp ht
    exact .whole .nil .nil
  | @other c rest ho hc h ih =>
    rcases List.append_eq_cons_iff.mp ht with ⟨rfl, rfl⟩ | ⟨x', rfl, rfl⟩
    · exact .whole .nil (.other ho hc h)
    · exact (ih rfl).prepend (.other ho hc .nil)
  | @pair inside rest hi hr ihi ihr =>
    rcases List.append_eq_cons_iff.mp ht with ⟨rfl, rfl⟩ | ⟨x', rfl, hinner⟩
    · exact .whole .nil (.pair hi hr)
    · rcases List.append_eq_append_iff.mp hinner with ⟨mid, rfl, hmid⟩ | ⟨mid, rfl, rfl⟩
      · rcases List.cons_eq_append_iff.mp hmid with ⟨rfl, rfl⟩ | ⟨mid', rfl, rfl⟩
        · -- cut right before its closing bracket
          rw [List.append_nil]
          exact .around .nil (.whole hi .nil) hr
        · -- cut behind the pair
          have hpair := (ihr rfl).prepend (Balanced.pair hi .nil)
          simpa using hpair
      · -- cut inside the first pair of brackets
        exact .around .nil (ihi rfl) hr

/-! ## The scan for an unmatched bracket -/

theorem unmatchedAt?_other {c : Char} (ho : c ≠ opener) (hc : c ≠ closer) (depth : Nat)
    (rest : Text) : unmatchedAt? opener closer depth (c :: rest) =
      (unmatchedAt? opener closer depth rest).map (· + 1) := by
  rw [unmatchedAt?.eq_def]
  simp [ho, hc]

theorem unmatchedAt?_opener (opener closer : Char) (depth : Nat) (rest : Text) :
    unmatchedAt? opener closer depth (opener :: rest) =
      (unmatchedAt? opener closer (depth + 1) rest).map (· + 1) := by
  rw [unmatchedAt?.eq_def]
  simp

theorem unmatchedAt?_closer (hne : opener ≠ closer) (depth : Nat) (rest : Text) :
    unmatchedAt? opener closer (depth + 1) (closer :: rest) =
      (unmatchedAt? opener closer depth rest).map (· + 1) := by
  rw [unmatchedAt?.eq_def]
  simp [hne.symm]

theorem unmatchedAt?_here (hne : opener ≠ closer) (rest : Text) :
    unmatchedAt? opener closer 0 (closer :: rest) = some 0 := by
  rw [unmatchedAt?.eq_def]
  simp [hne.symm]

/-- The scan passes balanced text. -/
theorem unmatchedAt?_append (hne : opener ≠ closer) (h : Balanced opener closer a) (depth : Nat)
    (rest : Text) : unmatchedAt? opener closer depth (a ++ rest) =
      (unmatchedAt? opener closer depth rest).map (· + a.length) := by
  induction h generalizing depth rest with
  | nil => simp
  | other ho hc _ ih =>
    rw [List.cons_append, unmatchedAt?_other ho hc, ih, Option.map_map]
    rfl
  | @pair inside tail _ _ ihi ihr =>
    rw [List.cons_append, List.append_assoc, List.cons_append, unmatchedAt?_opener, ihi,
      unmatchedAt?_closer hne, ihr]
    simp only [Option.map_map, List.length_cons, List.length_append]
    congr 1
    funext m
    simp only [Function.comp_apply]
    omega

/-- What is scanned up to an unmatched closing bracket is balanced, with the brackets open from
before in front of it. -/
theorem exists_of_unmatchedAt? {depth : Nat}
    (h : unmatchedAt? opener closer depth t = some n) :
    ∃ a b, t = a ++ closer :: b ∧ a.length = n ∧
      Balanced opener closer (List.replicate depth opener ++ a) := by
  induction t generalizing depth n with
  | nil => cases h
  | cons c rest ih =>
    unfold unmatchedAt? at h
    split at h
    · rename_i ho
      obtain ⟨m, hm, rfl⟩ := Option.map_eq_some_iff.mp h
      obtain ⟨a, b, rfl, rfl, hbalanced⟩ := ih hm
      refine ⟨c :: a, b, rfl, rfl, ?_⟩
      rw [List.replicate_succ', List.append_assoc] at hbalanced
      rwa [ho]
    · rename_i ho
      split at h
      · rename_i hc
        cases depth with
        | zero =>
          rw [← Option.some.inj h]
          exact ⟨[], rest, by rw [hc]; rfl, rfl, .nil⟩
        | succ depth =>
          obtain ⟨m, hm, rfl⟩ := Option.map_eq_some_iff.mp h
          obtain ⟨a, b, rfl, rfl, hbalanced⟩ := ih hm
          refine ⟨c :: a, b, rfl, rfl, ?_⟩
          have hpair := hbalanced.cut.balanced (.pair .nil .nil)
          rw [List.replicate_succ', List.append_assoc, hc]
          exact hpair
      · rename_i hc
        obtain ⟨m, hm, rfl⟩ := Option.map_eq_some_iff.mp h
        obtain ⟨a, b, rfl, rfl, hbalanced⟩ := ih hm
        exact ⟨c :: a, b, rfl, rfl, hbalanced.cut.balanced (.other ho hc .nil)⟩

/-- The scan ends at the closing bracket up to which the text is balanced. -/
theorem unmatchedAt?_eq_some_iff (hne : opener ≠ closer) :
    unmatchedAt? opener closer 0 t = some n ↔
      ∃ a b, t = a ++ closer :: b ∧ a.length = n ∧ Balanced opener closer a := by
  constructor
  · exact exists_of_unmatchedAt?
  · rintro ⟨a, b, rfl, rfl, ha⟩
    rw [unmatchedAt?_append hne ha, unmatchedAt?_here hne, Option.map_some, Nat.zero_add]

/-! ## The innermost pair of brackets -/

/-- A span from one bracket to the one that matches it, around a place. -/
structure PairAround (opener closer : Char) (line : Text) (caret : Nat) (s : DelimitedSpan) :
    Prop where
  opening_lt : s.opening < caret
  le_closing : caret ≤ s.closing
  stands : ∃ before inside behind, line = before ++ opener :: (inside ++ closer :: behind) ∧
    before.length = s.opening ∧ s.opening + 1 + inside.length = s.closing ∧
      Balanced opener closer inside

/-- The place cuts what stands between the brackets. -/
theorem pairAround_iff : PairAround opener closer line caret s ↔
    ∃ before x y behind, line = before ++ opener :: x ++ (y ++ closer :: behind) ∧
      (before ++ opener :: x).length = caret ∧ s = ⟨before.length, caret + y.length⟩ ∧
        Balanced opener closer (x ++ y) := by
  constructor
  · intro h
    obtain ⟨before, inside, behind, hline, hopening, hclosing, hinside⟩ := h.stands
    have hlt := h.opening_lt
    have hle := h.le_closing
    refine ⟨before, inside.take (caret - s.opening - 1), inside.drop (caret - s.opening - 1),
      behind, ?_, ?_, ?_, ?_⟩
    · rw [hline, List.append_assoc, List.cons_append, ← List.append_assoc (List.take _ _),
        List.take_append_drop]
    · rw [List.length_append, List.length_cons, List.length_take]
      omega
    · rw [List.length_drop, hopening, show caret + (inside.length - (caret - s.opening - 1)) =
        s.closing by omega]
    · rwa [List.take_append_drop]
  · rintro ⟨before, x, y, behind, hline, hcaret, rfl, hinside⟩
    rw [List.length_append, List.length_cons] at hcaret
    refine ⟨?_, Nat.le_add_right _ _, before, x ++ y, behind, ?_, rfl, ?_, hinside⟩
    · change before.length < caret
      omega
    · rw [hline]
      simp
    · change before.length + 1 + (x ++ y).length = caret + y.length
      rw [List.length_append]
      omega

/-- What the two scans find are brackets that match. -/
theorem pairSpan?_sound (hne : opener ≠ closer) (hcaret : caret ≤ line.length)
    (h : pairSpan? opener closer line caret = some s) :
    PairAround opener closer line caret s := by
  unfold pairSpan? at h
  simp only [Nat.min_eq_left hcaret] at h
  obtain ⟨i, hi, h⟩ := Option.bind_eq_some_iff.mp h
  obtain ⟨j, hj, h⟩ := Option.bind_eq_some_iff.mp h
  obtain ⟨x, before, hx, rfl, hxb⟩ := (unmatchedAt?_eq_some_iff hne.symm).mp hi
  obtain ⟨y, behind, hy, rfl, hyb⟩ := (unmatchedAt?_eq_some_iff hne).mp hj
  have htake : line.take caret = before.reverse ++ opener :: x.reverse := by
    rw [← List.reverse_reverse (line.take caret), hx]
    simp
  have hlength := congrArg List.length htake
  rw [List.length_take, Nat.min_eq_left hcaret, List.length_append, List.length_cons,
    List.length_reverse, List.length_reverse] at hlength
  refine pairAround_iff.mpr ⟨before.reverse, x.reverse, y, behind, ?_, ?_, ?_, ?_⟩
  · rw [← htake, ← hy, List.take_append_drop]
  · simp [hlength]
  · rw [← Option.some.inj h, List.length_reverse, hlength]
    congr 1
    omega
  · exact hxb.reverse.append hyb

/-- The two scans find the innermost brackets that match. -/
theorem pairSpan?_complete (hne : opener ≠ closer) (h : PairAround opener closer line caret s) :
    ∃ inner, pairSpan? opener closer line caret = some inner ∧ s.opening ≤ inner.opening ∧
      inner.closing ≤ s.closing := by
  obtain ⟨before, x, y, behind, hline, hcaret, rfl, hinside⟩ := pairAround_iff.mp h
  obtain ⟨u, v, hu, hv, hle⟩ := hinside.cut.exists_open before
  obtain ⟨u', v', hu', hv', hle'⟩ := hinside.cut.exists_close behind
  have htake : line.take caret = u ++ opener :: v := by
    rw [hline, List.take_left' hcaret, hu]
  have hdrop : line.drop caret = u' ++ closer :: v' := by
    rw [hline, List.drop_left' hcaret, hu']
  have hmin : min caret line.length = caret := by
    rw [hline, List.length_append, hcaret]
    omega
  have hopen : unmatchedAt? closer opener 0 (line.take caret).reverse = some v.length := by
    refine (unmatchedAt?_eq_some_iff hne.symm).mpr ⟨v.reverse, u.reverse, ?_, by simp, hv.reverse⟩
    rw [htake]
    simp
  have hclose : unmatchedAt? opener closer 0 (line.drop caret) = some u'.length :=
    (unmatchedAt?_eq_some_iff hne).mpr ⟨u', v', hdrop, rfl, hv'⟩
  refine ⟨⟨caret - 1 - v.length, caret + u'.length⟩, ?_, ?_, ?_⟩
  · unfold pairSpan?
    simp only [hmin, hopen, hclose]
    rfl
  · have hlength := congrArg List.length hu
    rw [hcaret, List.length_append, List.length_cons] at hlength
    change before.length ≤ caret - 1 - v.length
    omega
  · exact Nat.add_le_add_left hle' caret

/-- The place counts as the end of the line when it lies behind it. -/
theorem pairSpan?_clamp (opener closer : Char) (line : Text) (caret : Nat) :
    pairSpan? opener closer line caret =
      pairSpan? opener closer line (min caret line.length) := by
  unfold pairSpan?
  simp only [Nat.min_assoc, Nat.min_self]

/-- The innermost brackets that match around a place. -/
theorem pairSpan?_eq_some_iff (hne : opener ≠ closer) :
    pairSpan? opener closer line caret = some s ↔
      PairAround opener closer line (min caret line.length) s ∧
        ∀ s', PairAround opener closer line (min caret line.length) s' →
          s'.opening ≤ s.opening ∧ s.closing ≤ s'.closing := by
  rw [pairSpan?_clamp]
  constructor
  · intro h
    refine ⟨pairSpan?_sound hne (Nat.min_le_right _ _) h, ?_⟩
    intro s' hs'
    obtain ⟨inner, hinner, hle⟩ := pairSpan?_complete hne hs'
    rw [h] at hinner
    rwa [Option.some.inj hinner]
  · rintro ⟨h, hinnermost⟩
    obtain ⟨inner, hinner, hopening, hclosing⟩ := pairSpan?_complete hne h
    have hle := hinnermost inner (pairSpan?_sound hne (Nat.min_le_right _ _) hinner)
    rw [hinner, Option.some.injEq, DelimitedSpan.mk.injEq]
    omega

/-! ## Spans have a width -/

theorem quoteIndexes_lt {previous : Option Char} {i k : Nat} (h : k ∈ quoteIndexes previous i t) :
    k - i < t.length :=
  (List.getElem?_eq_some_iff.mp (quoteIndexes_getElem h).2).1

theorem quoteIndexes_sorted (previous : Option Char) (i : Nat) (t : Text) :
    (quoteIndexes previous i t).Pairwise (· < ·) := by
  induction t generalizing previous i with
  | nil => exact .nil
  | cons c rest ih =>
    unfold quoteIndexes
    split
    · refine .cons ?_ (ih _ _)
      intro k hk
      exact (quoteIndexes_getElem hk).1
    · exact ih _ _

theorem opening_lt_of_mem_spansOf {l : List Nat} (hl : l.Pairwise (· < ·)) (h : s ∈ spansOf l) :
    s.opening < s.closing ∧ s.closing ∈ l := by
  fun_induction spansOf l with
  | case1 a b rest ih =>
    obtain ⟨ha, hrest⟩ := List.pairwise_cons.mp hl
    rcases List.mem_cons.mp h with rfl | h
    · exact ⟨ha b List.mem_cons_self, List.mem_cons_of_mem _ List.mem_cons_self⟩
    · obtain ⟨hlt, hm⟩ := ih (List.pairwise_cons.mp hrest).2 h
      exact ⟨hlt, List.mem_cons_of_mem _ (List.mem_cons_of_mem _ hm)⟩
  | case2 => cases h

/-- A span opens before it closes, and closes in the line. -/
theorem Delimiter.span?_width {d : Delimiter} (h : d.span? line caret = some s) :
    s.opening < s.closing ∧ s.closing < line.length := by
  cases d with
  | quote =>
    obtain ⟨hlt, hm⟩ :=
      opening_lt_of_mem_spansOf (quoteIndexes_sorted none 0 line) (List.mem_of_find?_eq_some h)
    exact ⟨hlt, quoteIndexes_lt hm⟩
  | pair opener closer =>
    obtain ⟨before, hb, h⟩ := Option.bind_eq_some_iff.mp h
    obtain ⟨after, ha, h⟩ := Option.bind_eq_some_iff.mp h
    have hbefore := (List.getElem?_eq_some_iff.mp (unmatchedAt?_getElem hb)).1
    have hafter := (List.getElem?_eq_some_iff.mp (unmatchedAt?_getElem ha)).1
    rw [List.length_reverse, List.length_take] at hbefore
    rw [List.length_drop] at hafter
    rw [← Option.some.inj h]
    dsimp only
    omega

/-- The inside of a span ends before its closing delimiter. -/
theorem DelimitedSpan.inside_le_closing (hlt : s.opening < s.closing)
    (hle : s.closing < line.length) :
    (s.inside line).1 + (s.inside line).2.length ≤ s.closing := by
  unfold DelimitedSpan.inside
  have hinner : ((line.drop (s.opening + 1)).take (s.closing - (s.opening + 1))).length =
      s.closing - (s.opening + 1) := by
    rw [List.length_take, List.length_drop]
    omega
  dsimp only
  split
  · rename_i hquoted
    rw [hinner, Bool.and_eq_true, Bool.and_eq_true, decide_eq_true_iff] at hquoted
    have htwo := hquoted.1.1
    rw [List.length_dropLast, List.length_drop, hinner]
    omega
  · rw [hinner]
    omega

/-! ## The shortest span -/

/-- The number of characters from one delimiter of a span to the other. -/
def DelimitedSpan.width (s : DelimitedSpan) : Nat := s.closing - s.opening

/-- Of some spans the shorter one is kept, and the earlier in a tie. -/
theorem firstLeast_foldl_shorter (first : DelimitedSpan) (rest : List DelimitedSpan) :
    FirstLeast DelimitedSpan.width (first :: rest) (rest.foldl DelimitedSpan.shorter first) := by
  induction rest using List.reverseRec with
  | nil => exact .singleton _ first
  | append_singleton rest next ih =>
    rw [List.foldl_append, List.foldl_cons, List.foldl_nil, ← List.cons_append]
    generalize rest.foldl DelimitedSpan.shorter first = best at ih
    unfold DelimitedSpan.shorter
    split
    · rename_i hlt
      refine .snoc_of_lt ?_
      intro item hm
      exact Nat.lt_of_lt_of_le hlt (ih.le hm)
    · rename_i hle
      exact ih.snoc_of_le (Nat.le_of_not_lt hle)

/-- The spans of some delimiters around a place, in the order of the delimiters. -/
def spansAround (line : Text) (caret : Nat) (delimiters : List Delimiter) : List DelimitedSpan :=
  delimiters.filterMap (·.span? line caret)

theorem enclosingSpan?_eq_some_iff {delimiters : List Delimiter} :
    enclosingSpan? line caret delimiters = some s ↔
      FirstLeast DelimitedSpan.width (spansAround line caret delimiters) s := by
  unfold enclosingSpan? spansAround
  cases delimiters.filterMap (·.span? line caret) with
  | nil =>
    constructor
    · intro h
      cases h
    · intro h
      cases h.mem
  | cons first rest =>
    have hleast := firstLeast_foldl_shorter first rest
    constructor
    · intro h
      rwa [← Option.some.inj h]
    · intro h
      exact congrArg some (hleast.unique h)

theorem isSome_enclosingSpan? {delimiters : List Delimiter} :
    (enclosingSpan? line caret delimiters).isSome ↔
      ∃ d ∈ delimiters, (d.span? line caret).isSome := by
  have hspans : spansAround line caret delimiters ≠ [] ↔
      ∃ d ∈ delimiters, (d.span? line caret).isSome := by
    simp [spansAround, List.filterMap_eq_nil_iff, Option.isSome_iff_ne_none]
  rw [← hspans]
  unfold enclosingSpan? spansAround
  cases delimiters.filterMap (·.span? line caret) with
  | nil => simp
  | cons first rest => simp

theorem enclosingSpan?_pair (opener closer : Char) :
    enclosingSpan? line caret [.pair opener closer] = pairSpan? opener closer line caret := by
  unfold enclosingSpan?
  rw [List.filterMap_cons, Delimiter.span?]
  cases pairSpan? opener closer line caret <;> rfl

/-- The span of one pair of brackets around a place is the innermost one whose brackets match, and
there is one as soon as any brackets around the place match. Of several delimiters the first of the
shortest spans is taken. Every span opens before it closes, and its inside lies in between. -/
theorem the_innermost_matching_brackets_enclose_a_place (line : Text) (caret : Nat) :
    (∀ opener closer : Char, opener ≠ closer →
      ((enclosingSpan? line caret [.pair opener closer]).isSome ↔
        ∃ s, PairAround opener closer line (min caret line.length) s) ∧
      ∀ s, enclosingSpan? line caret [.pair opener closer] = some s →
        PairAround opener closer line (min caret line.length) s ∧
          ∀ s', PairAround opener closer line (min caret line.length) s' →
            s'.opening ≤ s.opening ∧ s.closing ≤ s'.closing) ∧
    (∀ delimiters : List Delimiter,
      ((enclosingSpan? line caret delimiters).isSome ↔
        ∃ d ∈ delimiters, (d.span? line caret).isSome) ∧
      ∀ s, enclosingSpan? line caret delimiters = some s →
        FirstLeast DelimitedSpan.width (spansAround line caret delimiters) s) ∧
    (∀ (d : Delimiter) (s : DelimitedSpan), d.span? line caret = some s →
      s.opening < s.closing ∧ s.closing < line.length ∧ s.opening < (s.inside line).1 ∧
        (s.inside line).1 + (s.inside line).2.length ≤ s.closing) := by
  refine ⟨?_, ?_, ?_⟩
  · intro opener closer hne
    rw [enclosingSpan?_pair, pairSpan?_clamp]
    refine ⟨⟨?_, ?_⟩, ?_⟩
    · intro h
      obtain ⟨s, hs⟩ := Option.isSome_iff_exists.mp h
      exact ⟨s, pairSpan?_sound hne (Nat.min_le_right _ _) hs⟩
    · rintro ⟨s, hs⟩
      obtain ⟨inner, hinner, -⟩ := pairSpan?_complete hne hs
      rw [hinner]
      rfl
    · intro s hs
      rw [← pairSpan?_clamp] at hs
      exact (pairSpan?_eq_some_iff hne).mp hs
  · intro delimiters
    exact ⟨isSome_enclosingSpan?, fun s hs => enclosingSpan?_eq_some_iff.mp hs⟩
  · intro d s hs
    obtain ⟨hlt, hle⟩ := Delimiter.span?_width hs
    exact ⟨hlt, hle, s.opening_lt_inside line, s.inside_le_closing hlt hle⟩

/-- A label in parentheses inside a box. -/
def nestedBrackets : Text := "A[foo (bar)] --> B".toList

/-- The parentheses around `bar` are the innermost ones, and shorter than the box around them. -/
theorem nestedBrackets_enclose_a_place :
    PairAround '(' ')' nestedBrackets 8 ⟨6, 10⟩ ∧
      (∀ s', PairAround '(' ')' nestedBrackets 8 s' → s'.opening ≤ 6 ∧ 10 ≤ s'.closing) ∧
      enclosingSpan? nestedBrackets 8 [.pair '[' ']', .pair '(' ')'] = some ⟨6, 10⟩ ∧
      FirstLeast DelimitedSpan.width (spansAround nestedBrackets 8 [.pair '[' ']', .pair '(' ')'])
        ⟨6, 10⟩ ∧
      DelimitedSpan.inside nestedBrackets ⟨6, 10⟩ = (7, "bar".toList) := by
  obtain ⟨hpair, hfirst, -⟩ := the_innermost_matching_brackets_enclose_a_place nestedBrackets 8
  obtain ⟨-, hinner⟩ := hpair '(' ')' (by decide)
  obtain ⟨haround, hinnermost⟩ := hinner ⟨6, 10⟩ (by decide)
  obtain ⟨-, hleast⟩ := hfirst [.pair '[' ']', .pair '(' ')']
  exact ⟨haround, hinnermost, by decide, hleast ⟨6, 10⟩ (by decide), by decide⟩

end DiagramLint
