-- Batches of changes that mend wrong arrows. Made from the last to the first,
-- each of them stands behind text that is still as it was, and so changes one
-- row into one alike.
import DiagramLint.Proofs.Edit.Splice
import DiagramLint.Proofs.Sequence.Senders

namespace DiagramLint

open Text

/-- A change stands in front of the later ones: they have left the text up to its end. -/
theorem spliceFrom_first {t a b d : Text} {c : Change} {rest : List Change}
    (ht : t = a ++ b ++ d) (hc : c.1 = ⟨byteSize a, byteSize (a ++ b)⟩)
    (hf : Fitting t (c :: rest)) (hle : ∀ c' ∈ rest, c.1.stop ≤ c'.1.start) :
    t.spliceFrom 0 (c :: rest) = a ++ c.2 ++ t.spliceFrom (byteSize (a ++ b)) rest ∧
      t.spliceFrom 0 rest = a ++ b ++ t.spliceFrom (byteSize (a ++ b)) rest := by
  obtain ⟨range, newText⟩ := c
  dsimp only at hc hle ⊢
  subst hc
  have hrest : Fitting t rest := fun c' hm => hf c' (List.mem_cons_of_mem _ hm)
  have hb : Boundary t (byteSize (a ++ b)) := ⟨a ++ b, d, ht, rfl⟩
  constructor
  · rw [spliceFrom, ht, List.append_assoc a b d, slice_zero_append]
  · rw [spliceFrom_split (boundary_zero t) hb (Nat.zero_le _) hrest hle]
    congr 1
    rw [ht]
    exact slice_zero_append (a ++ b) d

/-- What a splice starts with stands in the text or in a change. -/
theorem head?_spliceFrom {t a d : Text} {rest : List Change} {c : Char} (ht : t = a ++ d)
    (hf : Fitting t rest) (hle : ∀ c' ∈ rest, byteSize a ≤ c'.1.start) (hd : d.head? ≠ some c)
    (hnew : ∀ c' ∈ rest, c'.2 ≠ [] ∧ c'.2.head? ≠ some c) :
    (t.spliceFrom (byteSize a) rest).head? ≠ some c := by
  cases rest with
  | nil =>
    rw [spliceFrom, ht, slice_byteSize_append]
    exact hd
  | cons first later =>
    obtain ⟨range, newText⟩ := first
    obtain ⟨hne, hhead⟩ := hnew _ List.mem_cons_self
    obtain ⟨before, behind, heq, hsize⟩ := (hf _ List.mem_cons_self).1
    have hstart := hle _ List.mem_cons_self
    dsimp only at hne hhead hsize hstart
    obtain ⟨mid, rfl⟩ := prefix_of_byteSize_le (ht.symm.trans heq) (by omega)
    rw [spliceFrom, ← hsize, heq, slice_append]
    cases mid with
    | nil => rwa [List.nil_append, List.head?_append_of_ne_nil _ hne]
    | cons x more =>
      have hsame : d = x :: more ++ behind := by
        rw [ht, List.append_assoc] at heq
        exact List.append_cancel_left heq
      rw [hsame] at hd
      exact hd

namespace Sequence

/-- Two texts with the same heading, and rows alike behind it. -/
def TextLike (g : Heading) (t u : Text) : Prop :=
  ∃ post post', t = g.text ++ post ∧ u = g.text ++ post' ∧
    PageLike (some headerToken) post.rows post'.rows

/-- A wrong arrow of the text gives way to the right one. -/
def ArrowChange (g : Heading) (t : Text) (c : Change) : Prop :=
  ∃ above lead word gap a behind, WrongArrowAt g t above lead word gap a behind ∧
    c = (⟨byteSize (g.text ++ (above ++ (lead ++ (word ++ gap)))),
      byteSize (g.text ++ (above ++ (lead ++ (word ++ gap))) ++ a.toList)⟩, "->>".toList)

section

variable {g : Heading} {t u v : Text}

theorem ArrowChange.newText {c : Change} (h : ArrowChange g t c) :
    c.2 ≠ [] ∧ c.2.head? ≠ some '>' := by
  obtain ⟨-, -, -, -, -, -, -, rfl⟩ := h
  dsimp only
  decide

/-- A wrong arrow has characters, which stand in the text. -/
theorem ArrowChange.range {c : Change} (h : ArrowChange g t c) :
    c.1.start < c.1.stop ∧ c.1.stop ≤ byteSize t := by
  obtain ⟨above, lead, word, gap, a, behind, h, rfl⟩ := h
  have hpos : 0 < byteSize a.toList := by
    have hall : ∀ a ∈ invalidArrows, 0 < byteSize a.toList := by decide
    exact hall a h.wrong
  rw [h.text_eq]
  simp only [byteSize_append]
  omega

theorem TextLike.refl (post : Text) : TextLike g (g.text ++ post) (g.text ++ post) :=
  ⟨post, post, rfl, rfl, .refl _ (rows_ne_nil post)⟩

theorem TextLike.trans (h : TextLike g t u) (h' : TextLike g u v) : TextLike g t v := by
  obtain ⟨a, b, ht, hu, hab⟩ := h
  obtain ⟨b', d, hu', hv, hbd⟩ := h'
  obtain rfl : b = b' := List.append_cancel_left (hu.symm.trans hu')
  exact ⟨a, d, ht, hv, hab.trans hbd⟩

/-- One mended arrow in front of other changes. -/
theorem textLike_arrow {c : Change} {rest : List Change} (hc : ArrowChange g t c)
    (hf : Fitting t (c :: rest)) (hle : ∀ c' ∈ rest, c.1.stop ≤ c'.1.start)
    (hnew : ∀ c' ∈ rest, c'.2 ≠ [] ∧ c'.2.head? ≠ some '>') :
    TextLike g (t.spliceFrom 0 rest) (t.spliceFrom 0 (c :: rest)) := by
  obtain ⟨above, lead, word, gap, a, behind, h, rfl⟩ := hc
  have ht : t = g.text ++ (above ++ (lead ++ (word ++ gap))) ++ a.toList ++ behind := by
    rw [h.text_eq]
    simp only [List.append_assoc]
  obtain ⟨hmended, hkept⟩ := spliceFrom_first ht rfl hf hle
  have hhead := head?_spliceFrom ht (fun c' hm => hf c' (List.mem_cons_of_mem _ hm)) hle
    h.behind_head hnew
  rw [hmended, hkept]
  generalize t.spliceFrom _ rest = stuff at hhead
  refine ⟨above ++ (lead ++ (word ++ (gap ++ (a.toList ++ stuff)))),
    above ++ (lead ++ (word ++ (gap ++ ("->>".toList ++ stuff)))), ?_, ?_,
    pageLike_arrow h.above_ends h.sender h.wrong hhead⟩
  · simp only [List.append_assoc]
  · simp only [List.append_assoc]

/-- Mended arrows in front of other changes leave rows alike. -/
theorem textLike_arrows {arrows others : List Change} (hc : ∀ c ∈ arrows, ArrowChange g t c)
    (hf : Fitting t (arrows ++ others))
    (hord : (arrows ++ others).Pairwise fun a b => a.1.stop ≤ b.1.start)
    (hnew : ∀ c ∈ others, c.2 ≠ [] ∧ c.2.head? ≠ some '>')
    (hothers : ∃ post, t.spliceFrom 0 others = g.text ++ post) :
    TextLike g (t.spliceFrom 0 others) (t.spliceFrom 0 (arrows ++ others)) := by
  induction arrows with
  | nil =>
    obtain ⟨post, hpost⟩ := hothers
    rw [List.nil_append, hpost]
    exact .refl post
  | cons c arrows ih =>
    obtain ⟨hfirst, hrest⟩ := List.forall_mem_cons.mp hc
    obtain ⟨hle, hlater⟩ := List.pairwise_cons.mp hord
    have hall : ∀ c ∈ arrows ++ others, c.2 ≠ [] ∧ c.2.head? ≠ some '>' := by
      intro c hm
      rcases List.mem_append.mp hm with hm | hm
      · exact (hrest c hm).newText
      · exact hnew c hm
    exact (ih hrest (fun c hm => hf c (List.mem_cons_of_mem _ hm)) hlater).trans
      (textLike_arrow hfirst hf hle hall)

end

end Sequence

end DiagramLint
