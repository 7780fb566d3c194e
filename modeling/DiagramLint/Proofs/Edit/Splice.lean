-- A batch of edits that do not collide is one splice of the text: the
-- pieces between the ranges are kept, in order, and each range gives way to
-- its new text. The order in which the edits were listed does not matter.
import Mathlib.Data.List.Pairwise
import DiagramLint.Edit
import DiagramLint.Proofs.Text.Lines

namespace DiagramLint

namespace ByteRange

/-! ## Two ranges -/

/-- The order of a text: the earlier start first, then the earlier end. -/
def comesBefore (a b : ByteRange) : Bool :=
  a.start < b.start || (a.start == b.start && a.stop ≤ b.stop)

theorem comesFirst_eq (a b : ByteRange) : a.comesFirst b = b.comesBefore a := by
  simp only [comesFirst, comesBefore, Bool.beq_comm]

theorem comesBefore_iff {a b : ByteRange} :
    a.comesBefore b = true ↔ a.start < b.start ∨ (a.start = b.start ∧ a.stop ≤ b.stop) := by
  simp [comesBefore]

theorem comesBefore_trans {a b c : ByteRange} (h1 : a.comesBefore b) (h2 : b.comesBefore c) :
    a.comesBefore c := by
  rw [comesBefore_iff] at *
  omega

theorem comesBefore_total (a b : ByteRange) : (a.comesBefore b || b.comesBefore a) = true := by
  rw [Bool.or_eq_true, comesBefore_iff, comesBefore_iff]
  omega

theorem comesBefore_antisymm {a b : ByteRange} (h1 : a.comesBefore b) (h2 : b.comesBefore a) :
    a = b := by
  obtain ⟨a1, a2⟩ := a
  obtain ⟨b1, b2⟩ := b
  simp only [comesBefore_iff] at h1 h2
  rw [ByteRange.mk.injEq]
  omega

theorem overlaps_comm (a b : ByteRange) : a.overlaps b = b.overlaps a := by
  unfold overlaps
  by_cases ha : a.start = a.stop <;> by_cases hb : b.start = b.stop
  · simp [ha, hb, eq_comm]
  all_goals simp [ha, hb, Bool.and_comm]

/-- Two ranges do not collide exactly when one ends before the other starts and they differ. So
two insertions never share an offset, and an insertion never stands inside a replaced range. -/
theorem overlaps_eq_false_iff {a b : ByteRange} (ha : a.start ≤ a.stop) (hb : b.start ≤ b.stop) :
    a.overlaps b = false ↔ (a.stop ≤ b.start ∨ b.stop ≤ a.start) ∧ a ≠ b := by
  obtain ⟨a1, a2⟩ := a
  obtain ⟨b1, b2⟩ := b
  simp only [overlaps, ne_eq, ByteRange.mk.injEq] at *
  by_cases h : a1 = a2 ∧ b1 = b2
  · simp only [h, and_self, ↓reduceIte, decide_eq_false_iff_not]
    omega
  · simp only [h, ↓reduceIte, Bool.and_eq_false_iff, decide_eq_false_iff_not]
    omega

/-- Of two ranges that do not collide, the earlier one ends before the later one starts. -/
theorem stop_le_start {a b : ByteRange} (ha : a.start ≤ a.stop) (hb : b.start ≤ b.stop)
    (hab : a.comesBefore b) (h : a.overlaps b = false) : a.stop ≤ b.start := by
  obtain ⟨hd, hne⟩ := (overlaps_eq_false_iff ha hb).mp h
  rw [comesBefore_iff] at hab
  rcases hd with hd | hd
  · exact hd
  · -- `b` cannot end before `a` starts unless both are the same empty range
    exfalso
    apply hne
    obtain ⟨a1, a2⟩ := a
    obtain ⟨b1, b2⟩ := b
    simp only [ByteRange.mk.injEq] at *
    omega

end ByteRange

/-! ## Batches -/

/-- A byte range and the text that takes its place. -/
abbrev Change := ByteRange × Text

/-- The order of the text on changes. -/
def Change.comesBefore (a b : Change) : Bool := a.1.comesBefore b.1

/-- Changes at places of `t`: each from one offset between characters to one not before it. -/
def Fitting (t : Text) (changes : List Change) : Prop :=
  ∀ c ∈ changes, t.Boundary c.1.start ∧ t.Boundary c.1.stop ∧ c.1.start ≤ c.1.stop

/-- No two changes collide. -/
def Separate (changes : List Change) : Prop :=
  changes.Pairwise fun a b => a.1.overlaps b.1 = false

theorem Separate.perm {l l' : List Change} (h : Separate l) (hp : l.Perm l') : Separate l' :=
  List.Perm.pairwise hp h fun hab => by rw [ByteRange.overlaps_comm]; exact hab

theorem Fitting.perm {t : Text} {l l' : List Change} (h : Fitting t l) (hp : l.Perm l') :
    Fitting t l' := fun c hc => h c (hp.mem_iff.mpr hc)

/-- Changes that do not collide have one order. -/
theorem Separate.eq_of_perm {t : Text} {l l' : List Change} (hl : Separate l) (hf : Fitting t l)
    (hp : l.Perm l') (h : l.Pairwise fun a b => a.comesBefore b)
    (h' : l'.Pairwise fun a b => a.comesBefore b) : l = l' := by
  refine List.Perm.eq_of_pairwise ?_ h h' hp
  intro a b ha hb hab hba
  have hrange : a.1 = b.1 := ByteRange.comesBefore_antisymm hab hba
  by_contra hne
  have hsymm : Std.Symm fun a b : Change => a.1.overlaps b.1 = false :=
    ⟨fun x y hxy => by rw [ByteRange.overlaps_comm]; exact hxy⟩
  have hover := List.Pairwise.forall hl ha (hp.mem_iff.mpr hb) hne
  have hord := (hf a ha).2.2
  rw [← hrange, ByteRange.overlaps_eq_false_iff hord hord] at hover
  exact hover.2 rfl

/-- The changes in the order of the text. -/
def inOrder (changes : List Change) : List Change := changes.mergeSort Change.comesBefore

theorem inOrder_perm (changes : List Change) : (inOrder changes).Perm changes :=
  List.mergeSort_perm _ _

theorem inOrder_pairwise (changes : List Change) :
    (inOrder changes).Pairwise fun a b => a.comesBefore b := by
  apply List.pairwise_mergeSort
  · intro a b c hab hbc
    exact ByteRange.comesBefore_trans hab hbc
  · intro a b
    exact ByteRange.comesBefore_total a.1 b.1

/-- In the order of the text, each change ends before the next one starts. -/
theorem Separate.inOrder_stop_le {t : Text} {l : List Change} (h : Separate l) (hf : Fitting t l) :
    (inOrder l).Pairwise fun a b => a.1.stop ≤ b.1.start := by
  have hboth := (inOrder_pairwise l).and (h.perm (inOrder_perm l).symm)
  refine hboth.imp_of_mem ?_
  intro a b ha hb hab
  have hfit := hf.perm (inOrder_perm l).symm
  exact ByteRange.stop_le_start (hfit a ha).2.2 (hfit b hb).2.2 hab.1 hab.2

/-- The order in which changes are applied is the order of the text, backwards. -/
theorem Separate.mergeSort_comesFirst {t : Text} {l : List Change} (h : Separate l)
    (hf : Fitting t l) :
    (l.mergeSort fun a b => a.1.comesFirst b.1) = (inOrder l).reverse := by
  have hback : (l.mergeSort fun a b => a.1.comesFirst b.1).Pairwise
      fun a b => b.comesBefore a := by
    simp only [ByteRange.comesFirst_eq]
    apply List.pairwise_mergeSort
    · intro a b c hab hbc
      exact ByteRange.comesBefore_trans hbc hab
    · intro a b
      exact ByteRange.comesBefore_total b.1 a.1
  have hperm := List.mergeSort_perm l fun a b => a.1.comesFirst b.1
  rw [← List.reverse_eq_iff]
  refine (Separate.eq_of_perm (h.perm (inOrder_perm l).symm) (hf.perm (inOrder_perm l).symm)
    ?_ (inOrder_pairwise l) (List.pairwise_reverse.mpr hback)).symm
  exact (inOrder_perm l).trans (hperm.symm.trans (List.reverse_perm _).symm)

/-- Of changes that do not collide, each stands once between others. -/
theorem Separate.exists_between {l : List Change} (hs : Separate l) {c : Change} (hc : c ∈ l)
    (hcord : c.1.start ≤ c.1.stop) :
    ∃ before rest, inOrder l = before ++ c :: rest ∧ ∀ c' ∈ before ++ rest, c' ∈ l ∧ c' ≠ c := by
  have hperm := inOrder_perm l
  have hsep := hs.perm hperm.symm
  obtain ⟨before, rest, hsplit⟩ := List.append_of_mem (hperm.mem_iff.mpr hc)
  have hmem : ∀ c' ∈ inOrder l, c' ∈ l := fun c' hm => hperm.mem_iff.mp hm
  rw [hsplit] at hsep hmem
  -- a change collides with itself, so it does not come twice
  have hself : c.1.overlaps c.1 ≠ false := fun h =>
    ((ByteRange.overlaps_eq_false_iff hcord hcord).mp h).2 rfl
  rw [Separate, List.pairwise_append, List.pairwise_cons] at hsep
  refine ⟨before, rest, hsplit, fun c' hm => ?_⟩
  rcases List.mem_append.mp hm with hm | hm
  · refine ⟨hmem c' (List.mem_append_left _ hm), ?_⟩
    rintro rfl
    exact hself (hsep.2.2 c' hm c' List.mem_cons_self)
  · refine ⟨hmem c' (List.mem_append_right _ (List.mem_cons_of_mem _ hm)), ?_⟩
    rintro rfl
    exact hself (hsep.2.1.1 c' hm)

/-- Of changes that do not collide, one that starts before all others comes first. -/
theorem Separate.exists_first {l : List Change} (hs : Separate l) {c : Change} (hc : c ∈ l)
    (hcord : c.1.start ≤ c.1.stop) (hfirst : ∀ c' ∈ l, c' ≠ c → c.1.start < c'.1.start) :
    ∃ rest, inOrder l = c :: rest ∧ ∀ c' ∈ rest, c' ∈ l ∧ c' ≠ c := by
  obtain ⟨before, rest, hsplit, hothers⟩ := hs.exists_between hc hcord
  have hord := inOrder_pairwise l
  rw [hsplit] at hord
  obtain rfl : before = [] := by
    refine List.eq_nil_iff_forall_not_mem.mpr fun c' hm => ?_
    have hbefore := (List.pairwise_append.mp hord).2.2 c' hm c List.mem_cons_self
    obtain ⟨hl, hne⟩ := hothers c' (List.mem_append_left _ hm)
    have := hfirst c' hl hne
    rw [Change.comesBefore, ByteRange.comesBefore_iff] at hbefore
    omega
  exact ⟨rest, hsplit, hothers⟩

namespace Text

/-! ## The splice -/

/-- What a text becomes from byte `start` on: up to each range the text as it was, then the new
text, and the rest of the text behind the last range. -/
def spliceFrom (t : Text) (start : Nat) : List Change → Text
  | [] => t.slice start t.byteSize
  | (range, newText) :: rest =>
    t.slice start range.start ++ newText ++ t.spliceFrom range.stop rest

/-- The changes that edits make to a text. -/
def changes (t : Text) (edits : List Edit) : List Change :=
  edits.map fun edit => (edit.resolve t, edit.newText)

/-- A text with all edits made at once. -/
def splice (t : Text) (edits : List Edit) : Text := t.spliceFrom 0 (inOrder (t.changes edits))

/-- An insertion takes nothing away. -/
theorem resolve_insert {t : Text} {place : Position} {n : Nat} (h : t.offset place = n)
    (newText : Text) : (Edit.insert place newText).resolve t = ⟨n, n⟩ := by
  simp only [Edit.resolve, Edit.insert, Edit.ending, Option.getD_none, h, Nat.min_self,
    Nat.max_self]

theorem change_insert {t : Text} {place : Position} {n : Nat} (h : t.offset place = n)
    (newText : Text) :
    ((Edit.insert place newText).resolve t, (Edit.insert place newText).newText) =
      ((⟨n, n⟩, newText) : Change) :=
  Prod.ext (resolve_insert h newText) rfl

theorem fitting_changes (t : Text) (edits : List Edit) : Fitting t (t.changes edits) := by
  intro c hc
  obtain ⟨edit, -, rfl⟩ := List.mem_map.mp hc
  have ha := boundary_offset t edit.start
  have hb := boundary_offset t edit.ending
  simp only [Edit.resolve]
  refine ⟨?_, ?_, by omega⟩
  · rcases Nat.le_total (t.offset edit.start) (t.offset edit.ending) with h | h
    · rwa [Nat.min_eq_left h]
    · rwa [Nat.min_eq_right h]
  · rcases Nat.le_total (t.offset edit.start) (t.offset edit.ending) with h | h
    · rwa [Nat.max_eq_right h]
    · rwa [Nat.max_eq_left h]

/-- Up to an offset that no change reaches, a splice keeps the text. -/
theorem spliceFrom_split {t : Text} {m n : Nat} {changes : List Change} (hm : Boundary t m)
    (hn : Boundary t n) (hmn : m ≤ n) (hf : Fitting t changes)
    (hle : ∀ c ∈ changes, n ≤ c.1.start) :
    t.spliceFrom m changes = t.slice m n ++ t.spliceFrom n changes := by
  cases changes with
  | nil =>
    have hend : n ≤ t.byteSize := by
      obtain ⟨a, b, rfl, rfl⟩ := hn
      simp
    rw [spliceFrom, spliceFrom, slice_append_slice hm hn (boundary_byteSize t) hmn hend]
  | cons c rest =>
    obtain ⟨range, newText⟩ := c
    have hc := (hf _ List.mem_cons_self).1
    have hstart := hle _ List.mem_cons_self
    rw [spliceFrom, spliceFrom, ← List.append_assoc, ← List.append_assoc,
      slice_append_slice hm hn hc hmn hstart]

theorem replaceRange_append (a b c newText : Text) :
    replaceRange (a ++ b ++ c) ⟨byteSize a, byteSize (a ++ b)⟩ newText =
      some (a ++ newText ++ c) := by
  have hsize : byteSize (a ++ b) - byteSize a = byteSize b := by
    rw [byteSize_append]
    omega
  rw [replaceRange, List.append_assoc, splitAtByte_append]
  simp only [hsize, Option.bind_eq_bind, Option.bind_some, splitAtByte_append]
  rfl

/-- Changes in the order of the text, applied from the last to the first, make its splice. -/
theorem foldrM_replaceRange {t : Text} {changes : List Change} (hf : Fitting t changes)
    (hs : changes.Pairwise fun a b => a.1.stop ≤ b.1.start) :
    changes.foldrM (fun c buffer => buffer.replaceRange c.1 c.2) t =
      some (t.spliceFrom 0 changes) := by
  induction changes with
  | nil =>
    have := slice_zero_append t []
    rw [List.append_nil] at this
    rw [List.foldrM_nil, spliceFrom, this]
    rfl
  | cons c rest ih =>
    obtain ⟨range, newText⟩ := c
    obtain ⟨hstop, hrest⟩ := List.pairwise_cons.mp hs
    obtain ⟨h1, h2, h12⟩ := hf _ List.mem_cons_self
    have hfr : Fitting t rest := fun c hc => hf c (List.mem_cons_of_mem _ hc)
    have hz := boundary_zero t
    -- the later changes leave the text up to the end of this range as it was
    have hsplit : t.spliceFrom 0 rest =
        t.slice 0 range.start ++ t.slice range.start range.stop ++
          t.spliceFrom range.stop rest := by
      rw [slice_append_slice hz h1 h2 (Nat.zero_le _) h12]
      exact spliceFrom_split hz h2 (Nat.zero_le _) hfr hstop
    have hstart : range.start = byteSize (t.slice 0 range.start) := by
      rw [byteSize_slice hz h1 (Nat.zero_le _), Nat.sub_zero]
    have hend : range.stop =
        byteSize (t.slice 0 range.start ++ t.slice range.start range.stop) := by
      rw [slice_append_slice hz h1 h2 (Nat.zero_le _) h12, byteSize_slice hz h2 (Nat.zero_le _),
        Nat.sub_zero]
    have hrange : range = ⟨byteSize (t.slice 0 range.start),
        byteSize (t.slice 0 range.start ++ t.slice range.start range.stop)⟩ := by
      rw [← hstart, ← hend]
    rw [List.foldrM_cons, ih hfr hrest, Option.bind_eq_bind, Option.bind_some, hsplit]
    calc _ = some (t.slice 0 range.start ++ newText ++ t.spliceFrom range.stop rest) := by
          conv => lhs; arg 2; rw [hrange]
          exact replaceRange_append _ _ _ _
      _ = _ := by rw [spliceFrom]

theorem applyEdits_eq_splice {t : Text} {edits : List Edit} (h : Separate (t.changes edits)) :
    t.applyEdits edits = some (t.splice edits) := by
  have hf := fitting_changes t edits
  unfold applyEdits
  simp only
  rw [show (edits.map fun edit => (edit.resolve t, edit.newText)) = t.changes edits from rfl,
    h.mergeSort_comesFirst hf, List.foldlM_reverse]
  exact foldrM_replaceRange (hf.perm (inOrder_perm _).symm) (h.inOrder_stop_le hf)

theorem splice_perm {t : Text} {edits edits' : List Edit} (h : Separate (t.changes edits))
    (hp : edits'.Perm edits) : t.splice edits' = t.splice edits := by
  have hperm : (t.changes edits').Perm (t.changes edits) := hp.map _
  have hsame : inOrder (t.changes edits) = inOrder (t.changes edits') := by
    refine Separate.eq_of_perm (h.perm (inOrder_perm _).symm)
      ((fitting_changes t edits).perm (inOrder_perm _).symm) ?_ (inOrder_pairwise _)
      (inOrder_pairwise _)
    exact (inOrder_perm _).trans (hperm.symm.trans (inOrder_perm _).symm)
  rw [splice, splice, hsame]

@[simp] theorem slice_all (t : Text) : t.slice 0 t.byteSize = t := by
  have := slice_zero_append t []
  rwa [List.append_nil] at this

@[simp] theorem splice_nil (t : Text) : t.splice [] = t := by
  rw [splice, changes, List.map_nil, inOrder, List.mergeSort_nil, spliceFrom, slice_all]

/-! ## The first edit of a batch -/

/-- An edit that comes first is made right behind the text before it, and the text from its end up
to the other edits stays. -/
theorem splice_first {t a b k d : Text} (ht : t = a ++ b ++ k ++ d) {edits : List Edit}
    (hs : Separate (t.changes edits)) {e : Edit} (he : e ∈ edits)
    (hrange : e.resolve t = ⟨byteSize a, byteSize (a ++ b)⟩)
    (hothers : ∀ e' ∈ edits, e' ≠ e → byteSize a < (e'.resolve t).start ∧
      byteSize (a ++ b ++ k) ≤ (e'.resolve t).start) :
    ∃ rest : List Change, (∀ c ∈ rest, ∃ e' ∈ edits, e' ≠ e ∧ c.1 = e'.resolve t) ∧
      t.splice edits =
        a ++ e.newText ++ k ++ t.spliceFrom (byteSize (a ++ b ++ k)) rest := by
  have hmem : ((e.resolve t, e.newText) : Change) ∈ t.changes edits := List.mem_map.mpr ⟨e, he, rfl⟩
  have hother : ∀ c ∈ t.changes edits, c ≠ (e.resolve t, e.newText) →
      ∃ e' ∈ edits, e' ≠ e ∧ c.1 = e'.resolve t := by
    intro c hc hne
    obtain ⟨e', he', rfl⟩ := List.mem_map.mp hc
    exact ⟨e', he', fun heq => hne (by rw [heq]), rfl⟩
  obtain ⟨rest, horder, hrest⟩ := hs.exists_first hmem (by rw [hrange]; simp) (by
    intro c hc hne
    obtain ⟨e', he', hne', hc'⟩ := hother c hc hne
    rw [hc', hrange]
    exact (hothers e' he' hne').1)
  have hlater : ∀ c ∈ rest, ∃ e' ∈ edits, e' ≠ e ∧ c.1 = e'.resolve t :=
    fun c hc => hother c (hrest c hc).1 (hrest c hc).2
  refine ⟨rest, hlater, ?_⟩
  have hfit : Fitting t rest := fun c hc => fitting_changes t edits c (hrest c hc).1
  have hb : Boundary t (byteSize (a ++ b)) := ⟨a ++ b, k ++ d, by rw [ht]; simp, rfl⟩
  have hk : Boundary t (byteSize (a ++ b ++ k)) := ⟨a ++ b ++ k, d, ht, rfl⟩
  have hkeep : t.slice 0 (byteSize a) = a := by
    rw [ht, List.append_assoc, List.append_assoc]
    exact slice_zero_append a _
  have hmid : t.slice (byteSize (a ++ b)) (byteSize (a ++ b ++ k)) = k := by
    rw [ht]
    exact slice_append (a ++ b) k d
  rw [splice, horder, spliceFrom, hrange, spliceFrom_split hb hk (by simp) hfit (by
    intro c hc
    obtain ⟨e', he', hne', hc'⟩ := hlater c hc
    rw [hc']
    exact (hothers e' he' hne').2), hkeep, hmid, ← List.append_assoc]

/-- Where no edit reaches, the text stays. -/
theorem splice_behind {t a b : Text} (ht : t = a ++ b) {edits : List Edit}
    (h : ∀ e ∈ edits, byteSize a ≤ (e.resolve t).start) :
    t.splice edits = a ++ t.spliceFrom (byteSize a) (inOrder (t.changes edits)) := by
  have hb : Boundary t (byteSize a) := ⟨a, b, ht, rfl⟩
  have hkeep : t.slice 0 (byteSize a) = a := by
    rw [ht]
    exact slice_zero_append a b
  rw [splice, spliceFrom_split (boundary_zero t) hb (Nat.zero_le _)
    ((fitting_changes t edits).perm (inOrder_perm _).symm) (by
      intro c hc
      obtain ⟨e, he, rfl⟩ := List.mem_map.mp ((inOrder_perm _).mem_iff.mp hc)
      exact h e he), hkeep]

/-! ## The law of a batch -/

/-- Edits that do not collide make the splice of the text, in whatever order they are listed. -/
theorem a_batch_is_one_splice (t : Text) (edits : List Edit)
    (h : edits.Pairwise fun a b => (a.resolve t).overlaps (b.resolve t) = false) :
    t.applyEdits edits = some (t.splice edits) ∧
      ∀ edits', edits'.Perm edits → t.applyEdits edits' = t.applyEdits edits := by
  have hs : Separate (t.changes edits) := List.pairwise_map.mpr h
  refine ⟨applyEdits_eq_splice hs, ?_⟩
  intro edits' hp
  have hs' : Separate (t.changes edits') := hs.perm (hp.map _).symm
  rw [applyEdits_eq_splice hs, applyEdits_eq_splice hs', splice_perm hs hp]

/-- Two insertions touch a replaced two-byte character, one on either side. -/
theorem a_batch_is_one_splice_around_a_replacement :
    Text.applyEdits "aé".toList
        [.insert ⟨1, 3⟩ ['z'], .replace ⟨1, 3⟩ ⟨1, 2⟩ ['y'], .insert ⟨1, 2⟩ ['x']] =
      some "axyz".toList := by
  have hsorted : inOrder [(⟨3, 3⟩, ['z']), (⟨1, 3⟩, ['y']), (⟨1, 1⟩, ['x'])] =
      [(⟨1, 1⟩, ['x']), (⟨1, 3⟩, ['y']), (⟨3, 3⟩, ['z'])] := by
    simp [inOrder, List.mergeSort, Change.comesBefore, ByteRange.comesBefore]
  rw [(a_batch_is_one_splice _ _ (by decide)).1, splice]
  exact congrArg some ((congrArg (spliceFrom _ 0) hsorted).trans (by decide))

end Text

end DiagramLint
