-- What repairs find in a line. A span starts at one of its delimiters, an
-- unmatched bracket is a bracket, and the line that opens a block is one of
-- the lines read.
import Mathlib.Data.List.Basic
import DiagramLint.Repair.Strategy

namespace DiagramLint

/-! ## Quoted spans -/

theorem quoteIndexes_getElem {previous : Option Char} {i k : Nat} {t : Text}
    (h : k ∈ quoteIndexes previous i t) : i ≤ k ∧ t[k - i]? = some '"' := by
  induction t generalizing previous i with
  | nil => cases h
  | cons c rest ih =>
    have later : k ∈ quoteIndexes (some c) (i + 1) rest →
        i ≤ k ∧ (c :: rest)[k - i]? = some '"' := by
      intro hk
      obtain ⟨hle, hget⟩ := ih hk
      refine ⟨by omega, ?_⟩
      rw [show k - i = k - (i + 1) + 1 by omega, List.getElem?_cons_succ]
      exact hget
    unfold quoteIndexes at h
    split at h
    · rename_i hc
      rcases List.mem_cons.mp h with rfl | h
      · rw [Nat.sub_self, List.getElem?_cons_zero, hc.1]
        exact ⟨Nat.le_refl _, rfl⟩
      · exact later h
    · exact later h

theorem opening_mem_of_mem_spansOf {s : DelimitedSpan} {l : List Nat} (h : s ∈ spansOf l) :
    s.opening ∈ l := by
  fun_induction spansOf l with
  | case1 a b rest ih =>
    rcases List.mem_cons.mp h with rfl | h
    · exact List.mem_cons_self
    · exact List.mem_cons_of_mem _ (List.mem_cons_of_mem _ (ih h))
  | case2 => cases h

/-! ## Bracketed spans -/

theorem unmatchedAt?_getElem {opener closer : Char} {depth n : Nat} {t : Text}
    (h : unmatchedAt? opener closer depth t = some n) : t[n]? = some closer := by
  induction t generalizing depth n with
  | nil => cases h
  | cons c rest ih =>
    have later : ∀ {depth}, (unmatchedAt? opener closer depth rest).map (· + 1) = some n →
        (c :: rest)[n]? = some closer := by
      intro depth hn
      obtain ⟨m, hm, rfl⟩ := Option.map_eq_some_iff.mp hn
      rw [List.getElem?_cons_succ]
      exact ih hm
    unfold unmatchedAt? at h
    split at h
    · exact later h
    · split at h
      · rename_i hc
        split at h
        · rw [← Option.some.inj h, List.getElem?_cons_zero, hc]
        · exact later h
      · exact later h

/-- The character a delimiter opens with. -/
def Delimiter.opener : Delimiter → Char
  | .quote => '"'
  | .pair opener _ => opener

/-- A span opens with the character of its delimiter. -/
theorem Delimiter.span?_opening {d : Delimiter} {content : Text} {caret : Nat} {s : DelimitedSpan}
    (h : d.span? content caret = some s) : content[s.opening]? = some d.opener := by
  cases d with
  | quote =>
    have hmem := opening_mem_of_mem_spansOf (List.mem_of_find?_eq_some h)
    exact (quoteIndexes_getElem hmem).2
  | pair opener closer =>
    obtain ⟨before, hb, h⟩ := Option.bind_eq_some_iff.mp h
    obtain ⟨after, -, h⟩ := Option.bind_eq_some_iff.mp h
    rw [← Option.some.inj h]
    have hget := unmatchedAt?_getElem hb
    obtain ⟨hlt, -⟩ := List.getElem?_eq_some_iff.mp hget
    rw [List.getElem?_reverse (by simpa using hlt)] at hget
    rw [List.length_reverse, List.length_take] at hlt
    rw [List.length_take, List.getElem?_take_of_lt (by omega)] at hget
    simp only [Delimiter.opener]
    rw [← hget]
    congr 1
    omega

theorem enclosingSpan?_opening {content : Text} {caret : Nat} {delimiters : List Delimiter}
    {s : DelimitedSpan} (h : enclosingSpan? content caret delimiters = some s) :
    ∃ d ∈ delimiters, content[s.opening]? = some d.opener := by
  unfold enclosingSpan? at h
  split at h
  · cases h
  · rename_i first rest hspans
    have hshorter : ∀ (l : List DelimitedSpan) (a : DelimitedSpan),
        l.foldl DelimitedSpan.shorter a ∈ a :: l := by
      intro l
      induction l with
      | nil => intro a; exact List.mem_cons_self
      | cons b l ih =>
        intro a
        rcases List.mem_cons.mp (ih (a.shorter b)) with hm | hm
        · rw [List.foldl_cons, hm, DelimitedSpan.shorter]
          split <;> simp
        · exact List.mem_cons_of_mem _ (List.mem_cons_of_mem _ hm)
    have hmem := hshorter rest first
    rw [Option.some.inj h, ← hspans] at hmem
    obtain ⟨d, hd, hspan⟩ := List.mem_filterMap.mp hmem
    exact ⟨d, hd, Delimiter.span?_opening hspan⟩

theorem DelimitedSpan.opening_lt_inside (content : Text) (s : DelimitedSpan) :
    s.opening < (s.inside content).1 := by
  unfold DelimitedSpan.inside
  simp only
  split <;> simp only <;> omega

/-! ## Unmatched brackets -/

theorem Shape.unmatchedOpener?_spec {shapes : List Shape} {depth : Nat} {reversed back : Text}
    (h : unmatchedOpener? shapes depth reversed = some back) :
    back <:+ reversed ∧ ∃ c rest, back = c :: rest ∧ opens shapes c = true := by
  induction reversed generalizing depth with
  | nil => cases h
  | cons c rest ih =>
    have later : ∀ {depth}, unmatchedOpener? shapes depth rest = some back →
        back <:+ c :: rest ∧ ∃ c rest, back = c :: rest ∧ opens shapes c = true := by
      intro depth hr
      obtain ⟨hsuffix, hopens⟩ := ih hr
      exact ⟨hsuffix.trans (List.suffix_cons _ _), hopens⟩
    unfold unmatchedOpener? at h
    split at h
    · exact later h
    · split at h
      · rename_i hopens
        split at h
        · rw [← Option.some.inj h]
          exact ⟨List.suffix_rfl, c, rest, rfl, hopens⟩
        · exact later h
      · exact later h

/-- Right before the end of an unmatched opening bracket stands one of its characters. -/
theorem Shape.unmatched?_spec {shapes : List Shape} {c : Caret} {openEnd : Nat} {shape : Shape}
    (h : unmatched? shapes c = some (openEnd, shape)) :
    openEnd ≤ c.index ∧ ∃ ch, opens shapes ch = true ∧ 0 < openEnd ∧
      c.line[openEnd - 1]? = some ch := by
  obtain ⟨back, hback, h⟩ := Option.bind_eq_some_iff.mp h
  obtain ⟨s, -, h⟩ := Option.bind_eq_some_iff.mp h
  obtain ⟨⟨gone, hgone⟩, ch, rest, rfl, hopens⟩ := unmatchedOpener?_spec hback
  have hend : openEnd = rest.length + 1 := by
    have := congrArg Prod.fst (Option.some.inj h)
    simpa using this.symm
  have hbefore : c.before = rest.reverse ++ [ch] ++ gone.reverse := by
    have := congrArg List.reverse hgone
    simpa using this.symm
  have hlen : openEnd ≤ c.before.length := by
    rw [hbefore, hend]
    simp
  have hindex : openEnd ≤ c.index := by
    unfold Caret.before at hlen
    rw [List.length_take] at hlen
    omega
  refine ⟨hindex, ch, hopens, by omega, ?_⟩
  have hget : c.before[openEnd - 1]? = some ch := by
    rw [hbefore, hend]
    simp
  rwa [Caret.before, List.getElem?_take_of_lt (by omega)] at hget

/-! ## Open blocks -/

/-- The number of an open line names a line that opens a block; lines are read backwards. -/
theorem openLine?_spec {opener : BlockOpener} {closer : Text} {depth n : Nat} {above : List Text}
    (h : openLine? opener closer depth above = some n) :
    0 < n ∧ ∃ content, above.reverse[n - 1]? = some content ∧ opener.opens content = true := by
  induction above generalizing depth with
  | nil => cases h
  | cons content above ih =>
    have later : ∀ {depth}, openLine? opener closer depth above = some n →
        0 < n ∧ ∃ l, (content :: above).reverse[n - 1]? = some l ∧ opener.opens l = true := by
      intro depth hn
      obtain ⟨hpos, l, hget, hopens⟩ := ih hn
      refine ⟨hpos, l, ?_, hopens⟩
      obtain ⟨hlt, -⟩ := List.getElem?_eq_some_iff.mp hget
      rw [List.reverse_cons, List.getElem?_append_left hlt]
      exact hget
    unfold openLine? at h
    split at h
    · exact later h
    · split at h
      · rename_i hopens
        split at h
        · rw [← Option.some.inj h]
          refine ⟨Nat.succ_pos _, content, ?_, hopens⟩
          simp
        · exact later h
      · exact later h

end DiagramLint
