-- Where the end of a block goes. The scan for the open block counts ends
-- against openings, as the blocks do, but by first words: it may stop early,
-- and never goes past a block that stays open. The end is put on a line of
-- its own between two lines, or behind the last one.
import Mathlib.Data.List.Induction
import DiagramLint.Proofs.Parsing.Moves
import DiagramLint.Proofs.Repair.Spans
import DiagramLint.Proofs.Text.Rows

namespace DiagramLint

open Text BlockMove

variable {opener : BlockOpener} {closer t : Text} {d : Diagnostic} {p : Proposal} {number : Nat}

/-- The first word of a row shows that the row opens a block, and shows an end only where one is. -/
structure Shows (opener : BlockOpener) (closer : Text) (move : Text → BlockMove) (row : Text) :
    Prop where
  opens : (move row).isOpening = true → opener.opens row.trim = true
  closes : isBlockCloser closer row.trim = true → (move row).isEnd = true

/-- The scan from the last line upwards goes no further than to a block that no end behind
reaches. -/
theorem le_of_openLine? {pre mid : List Text} {row : Text} {move : Text → BlockMove}
    {behind : List BlockMove} {depth : Nat} (hrow : Shows opener closer move row)
    (hmid : ∀ r ∈ mid, Shows opener closer move r) {keyword : String}
    (hmove : move row = .opens keyword) (hdepth : depth ≤ surplus 0 behind)
    (hopen : surplus 0 (mid.map move ++ behind) = 0)
    (h : openLine? opener closer depth ((pre ++ row :: mid).map trim).reverse = some number) :
    pre.length < number := by
  induction mid using List.reverseRec generalizing behind depth with
  | nil =>
    rw [List.map_nil, List.nil_append] at hopen
    rw [hopen, Nat.le_zero] at hdepth
    have hcloser : isBlockCloser closer row.trim = false := by
      rw [← Bool.not_eq_true]
      intro hc
      have hend := hrow.closes hc
      rw [hmove] at hend
      cases hend
    rw [hdepth, List.map_append, List.map_singleton, List.reverse_append, List.reverse_singleton,
      List.singleton_append, openLine?, hcloser, hrow.opens (by rw [hmove]; rfl)] at h
    simp only [Bool.false_eq_true, if_false, if_true, List.length_reverse, List.length_map,
      Option.some.injEq] at h
    omega
  | append_singleton init r ih =>
    obtain ⟨hinit, hr⟩ := List.forall_mem_append.mp hmid
    have hr := List.forall_mem_singleton.mp hr
    rw [List.map_append, List.map_singleton, List.append_assoc, List.singleton_append] at hopen
    have hle := surplus_le_cons (move r) behind
    -- however the row is taken, the ends to be matched above it are among the surplus from it on
    have hlater : ∀ {d : Nat}, d ≤ surplus 0 (move r :: behind) →
        openLine? opener closer d ((pre ++ row :: init).map trim).reverse = some number →
          pre.length < number := fun hd hscan => ih hinit hd hopen hscan
    rw [← List.cons_append, ← List.append_assoc, List.map_append, List.map_singleton,
      List.reverse_append, List.reverse_singleton, List.singleton_append] at h
    unfold openLine? at h
    split at h
    · rename_i hc
      refine hlater ?_ h
      have hend := hr.closes hc
      cases hm : move r with
      | closes =>
        rw [surplus]
        omega
      | _ => rw [hm] at hend; cases hend
    · split at h
      · split at h
        · rw [List.length_reverse, List.length_map, Option.some.injEq] at h
          rw [← h, List.length_append]
          omega
        · refine hlater ?_ h
          split at hle
          · omega
          · omega
      · rename_i hword
        refine hlater ?_ h
        rw [if_neg fun ho => hword (hr.opens ho)] at hle
        omega

/-! ## The place of an end -/

/-- The edit that closes the block opened on line `number`: at the start of a later line, or at
the end of a text whose last row is not empty. -/
inductive EndPlaced (closer t : Text) (number : Nat) : Edit → Prop where
  | between {a b indent : Text} {place : Position} (ht : t = a ++ b)
    (ha : ∀ c ∈ a.getLast?, c = '\n') (hn : number ≤ a.count '\n')
    (hi : ∀ c ∈ indent, c = ' ' ∨ c = '\t') (hp : t.offset place = byteSize a) :
    EndPlaced closer t number (.insert place (indent ++ closer ++ t.newline))
  | behind {a row indent : Text} {place : Position} (ht : t = a ++ row)
    (ha : ∀ c ∈ a.getLast?, c = '\n') (hrow : '\n' ∉ row) (hne : row ≠ [])
    (hi : ∀ c ∈ indent, c = ' ' ∨ c = '\t') (hp : t.offset place = byteSize t) :
    EndPlaced closer t number (.insert place (t.newline ++ indent ++ closer))

/-- A diagnostic on the last line has its end put in behind the open line. -/
theorem closeBlock_placed (hlast : t.clampLine d.line = t.lineCount) (hempty : opener.opens [] = false)
    (h : closeBlock opener closer t d = some p) :
    ∃ number edit, openLine? opener closer 0 (t.rows.map trim).reverse = some number ∧
      p = .atLevel .all edit ∧ EndPlaced closer t number edit := by
  obtain ⟨number, hn, h⟩ := Option.bind_eq_some_iff.mp h
  have hp := (Option.some.inj h).symm
  rw [hlast] at hn
  change openLine? opener closer 0 ((t.rows.take t.lineCount).map trim).reverse = _ at hn
  rw [← length_rows, List.take_length] at hn
  have hindent : ∀ c ∈ Text.indent (t.line number).content, c = ' ' ∨ c = '\t' := by
    intro c hc
    have := List.mem_takeWhile_imp hc
    simpa using this
  -- between two lines there is the start of the later one
  have hbetween : ∀ n, number ≤ n → n < t.lineCount → EndPlaced closer t number
      (.insert ⟨n + 1, 1⟩ (Text.indent (t.line number).content ++ closer ++ t.newline)) := by
    intro n hle hlt
    obtain ⟨a, b, rfl, ha, hcount⟩ := exists_above hlt
    obtain ⟨x, rest, hb⟩ := List.exists_cons_of_ne_nil (rows_ne_nil b)
    refine .between rfl ha (hcount ▸ hle) hindent ?_
    have hoffset := offset_behind ha hb (Nat.zero_le _)
    rwa [List.take_zero, byteSize_nil, Nat.add_zero, hcount] at hoffset
  refine ⟨number, _, hn, hp, ?_⟩
  split
  · rename_i body hbody
    obtain ⟨hlt, -⟩ := List.findIdx?_eq_some_iff_getElem.mp hbody
    refine hbetween (number + body) (Nat.le_add_right _ _) ?_
    rw [List.length_drop] at hlt
    have hrows := length_rows t
    rw [rows] at hrows
    omega
  · -- no later line ends the block, so its end goes behind the last one
    have hpos := lineCount_pos t
    obtain ⟨a, b, rfl, ha, hcount⟩ := exists_above (t := t) (n := t.lineCount - 1) (by omega)
    have hnumber : (a ++ b).lineCount = a.count '\n' + 1 := by omega
    have hb : '\n' ∉ b := by
      have hall := lineCount_eq_count (a ++ b)
      rw [List.count_append] at hall
      exact List.count_eq_zero.mp (by omega)
    have hrow := rows_of_not_mem hb
    have hline : (a ++ b).line (a ++ b).lineCount = ⟨byteSize a, b⟩ := by
      obtain ⟨ls, below, hstands, hlength⟩ := exists_line_behind ha hrow
      rw [hnumber, ← hlength]
      exact hstands.line_eq
    rw [hline, Line.width]
    dsimp only
    split
    · rename_i hnil
      have hlater : number ≤ (a ++ b).lineCount - 1 := by
        obtain ⟨-, content, hget, hopens⟩ := openLine?_spec hn
        rw [List.reverse_reverse, rows_of_above ha, hrow, List.map_append] at hget
        obtain ⟨hlt, -⟩ := List.getElem?_eq_some_iff.mp hget
        simp only [List.length_append, List.length_map, length_rowsAbove, List.length_cons,
          List.length_nil] at hlt
        by_contra hnot
        rw [List.getElem?_append_right (by simp [length_rowsAbove]; omega), List.length_map,
          length_rowsAbove, show number - 1 - a.count '\n' = 0 by omega,
          List.isEmpty_iff.mp hnil] at hget
        rw [← Option.some.inj hget] at hopens
        exact absurd hopens (by rw [show trim [] = [] from rfl, hempty]; decide)
      have hplaced := hbetween _ hlater (by omega)
      rwa [Nat.sub_add_cancel hpos] at hplaced
    · rename_i hne
      refine .behind rfl ha hb (fun hnil => hne (List.isEmpty_iff.mpr hnil)) hindent ?_
      have hoffset := offset_behind ha hrow (Nat.le_refl _)
      rwa [List.take_length, ← byteSize_append, ← hnumber] at hoffset

end DiagramLint
