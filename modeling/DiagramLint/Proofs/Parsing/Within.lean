-- Readings that keep to the tokens they were given: what they leave has a
-- property that the tokens had, and what they report has a property of its
-- own. So do the readings that recover from a token that is not expected.
-- Nesting adds only the errors its events carry, and leaves open only
-- blocks that an event opened.
import DiagramLint.Parsing.Nesting
import DiagramLint.Parsing.Reading
import DiagramLint.Proofs.Parsing.Derivations

namespace DiagramLint

/-! ## Readings -/

/-- The tokens left satisfy `R` and the errors reported satisfy `E`. -/
structure Reading.Leaves {κ ε α : Type} (R : List (Token κ) → Prop) (E : ε → Prop)
    (r : Reading κ ε α) : Prop where
  rest : R r.rest
  errors : ∀ e ∈ r.errors, E e

/-- Each token left satisfies `P` and the errors reported satisfy `E`. -/
abbrev Reading.Within {κ ε α : Type} (P : Token κ → Prop) (E : ε → Prop)
    (r : Reading κ ε α) : Prop :=
  r.Leaves (fun ts => ∀ t ∈ ts, P t) E

namespace Reading

variable {κ ε α β : Type} {R : List (Token κ) → Prop} {E : ε → Prop}

theorem leaves_ok {a : α} {rest : List (Token κ)} (h : R rest) :
    (Reading.ok a rest : Reading κ ε α).Leaves R E :=
  ⟨h, fun _ he => by cases he⟩

theorem leaves_fail {errors : List ε} {rest : List (Token κ)} (hr : R rest)
    (he : ∀ e ∈ errors, E e) : (Reading.fail errors rest : Reading κ ε α).Leaves R E :=
  ⟨hr, he⟩

theorem Leaves.after {r : Reading κ ε α} (h : r.Leaves R E) {errors : List ε}
    (he : ∀ e ∈ errors, E e) : (r.after errors).Leaves R E := by
  refine ⟨h.rest, ?_⟩
  intro e hm
  rcases List.mem_append.mp hm with hm | hm
  · exact he e hm
  · exact h.errors e hm

theorem Leaves.map {r : Reading κ ε α} (h : r.Leaves R E) (f : α → β) :
    (r.map f).Leaves R E :=
  ⟨h.rest, h.errors⟩

theorem Leaves.andThen {r : Reading κ ε α} (h : r.Leaves R E)
    {next : α → List (Token κ) → Reading κ ε β}
    (hn : ∀ a rest, R rest → (next a rest).Leaves R E) : (r.andThen next).Leaves R E := by
  unfold Reading.andThen
  split
  · exact leaves_fail h.rest h.errors
  · exact (hn _ _ h.rest).after h.errors

end Reading

/-- The property passes from a run of tokens to what is left behind its first one, unless that one
is of a kind that ends a statement. -/
def Shrinks {κ : Type} (ends : κ → Bool) (R : List (Token κ) → Prop) : Prop :=
  ∀ t ts, ends t.kind = false → R (t :: ts) → R ts

section

variable {κ : Type} {ends : κ → Bool}

theorem shrinks_forall_mem (P : Token κ → Prop) : Shrinks ends fun ts => ∀ t ∈ ts, P t :=
  fun _ _ _ h t ht => h t (List.mem_cons_of_mem _ ht)

theorem Shrinks.dropWhile {R : List (Token κ) → Prop} (hR : Shrinks ends R) {ts : List (Token κ)}
    (h : R ts) : R (ts.dropWhile fun t => !ends t.kind) := by
  induction ts with
  | nil => exact h
  | cons t ts ih =>
    rw [List.dropWhile_cons]
    split
    · rename_i ht
      exact ih (hR t ts (by simpa using ht) h)
    · exact h

/-- What is left of a run of tokens once some of them, none of which ends a statement, are taken. -/
def LeftOf (ends : κ → Bool) (whole ts : List (Token κ)) : Prop :=
  ∃ taken, whole = taken ++ ts ∧ ∀ t ∈ taken, ends t.kind = false

theorem leftOf_self (ts : List (Token κ)) : LeftOf ends ts ts := ⟨[], rfl, by simp⟩

theorem LeftOf.isSuffix {whole ts : List (Token κ)} (h : LeftOf ends whole ts) : ts <:+ whole := by
  obtain ⟨taken, rfl, -⟩ := h
  exact List.suffix_append _ _

theorem shrinks_leftOf (whole : List (Token κ)) : Shrinks ends (LeftOf ends whole) := by
  rintro t ts ht ⟨taken, rfl, htaken⟩
  refine ⟨taken ++ [t], by simp, ?_⟩
  intro t' hm
  rcases List.mem_append.mp hm with hm | hm
  · exact htaken t' hm
  · rw [List.mem_singleton.mp hm]
    exact ht

theorem LeftOf.terminated {eof : κ} (he : ends eof = true) {whole ts : List (Token κ)}
    (h : LeftOf ends whole ts) (hw : Terminated eof whole) : Terminated eof ts := by
  obtain ⟨taken, rfl, htaken⟩ := h
  induction taken with
  | nil => exact hw
  | cons t taken ih =>
    refine ih (fun t hm => htaken t (List.mem_cons_of_mem _ hm)) (hw.tail ?_)
    intro hk
    have ht := htaken t List.mem_cons_self
    rw [hk, he] at ht
    cases ht

end

theorem forall_mem_dropWhile {α : Type} {P : α → Prop} {l : List α} (h : ∀ a ∈ l, P a)
    (p : α → Bool) : ∀ a ∈ l.dropWhile p, P a :=
  fun a ha => h a ((List.dropWhile_sublist p).subset ha)

/-- What a run of skipped elements stands before is left over whole. -/
theorem dropWhile_append_cons {α : Type} {p : α → Bool} {l rest : List α} {a : α}
    (hl : ∀ x ∈ l, p x = true) (ha : p a = false) : (l ++ a :: rest).dropWhile p = a :: rest := by
  rw [List.dropWhile_append_of_pos hl, List.dropWhile_cons, ha]
  rfl

/-! ## Recovery -/

section

variable {κ ε α : Type} [Recovery κ ε] [DecidableEq κ] {ts : List (Token κ)} {expected : String}
  {r : Reading κ ε α}

omit [DecidableEq κ] in
theorem recover_isSuffix (ts : List (Token κ)) : recover ts <:+ ts := List.dropWhile_suffix _

omit [DecidableEq κ] in
/-- A parser goes on where a statement ends. -/
theorem endsStatement_recover (ts : List (Token κ)) :
    Recovery.endsStatement (kindAhead (recover ts)) = true := by
  have hstop := List.head?_dropWhile_not (fun t : Token κ => !Recovery.endsStatement t.kind) ts
  unfold recover
  generalize ts.dropWhile (fun t : Token κ => !Recovery.endsStatement t.kind) = left at hstop
  cases left with
  | nil => exact Recovery.endsStatement_eof
  | cons t rest => simpa [kindAhead] using hstop

theorem endsStatement_endLine (r : Reading κ ε α) :
    Recovery.endsStatement (kindAhead (endLine r).rest) = true := by
  unfold endLine
  split
  · assumption
  · exact endsStatement_recover r.rest

theorem endLine_isSuffix (r : Reading κ ε α) : (endLine r).rest <:+ r.rest := by
  unfold endLine
  split
  · exact List.suffix_rfl
  · exact recover_isSuffix _

@[simp] theorem endLine_value (r : Reading κ ε α) : (endLine r).value = r.value := by
  unfold endLine
  split <;> rfl

theorem endLine_of_ends (h : Recovery.endsStatement (kindAhead r.rest) = true) :
    endLine r = r :=
  if_pos h

theorem errors_of_endLine (h : (endLine r).errors = []) : r.errors = [] := by
  unfold endLine at h
  split at h
  · exact h
  · exact (List.append_eq_nil_iff.mp h).1

theorem unexpected_ne_nil {eof : κ} (expected : String) (h : Terminated eof ts) :
    unexpected expected ts ≠ [] := by
  obtain ⟨t, rest, rfl⟩ := h.exists_cons
  simp [unexpected]

/-- Before the end of the text, something is refused with an error. -/
theorem refuse_derives {eof : κ} {D : List (Token κ) → α → Prop} {F : List (Token κ) → Prop}
    (expected : String) (h : Terminated eof ts) (whole : List (Token κ)) :
    (refuse expected ts : Reading κ ε α).Derives D F whole :=
  Reading.derives_of_errors (unexpected_ne_nil expected h)

/-- What holds of every error about a token that is not expected holds of what is reported. -/
theorem forall_mem_unexpected {E : ε → Prop}
    (h : ∀ place width found, E (Recovery.unexpected κ place width found expected)) :
    ∀ e ∈ unexpected expected ts, E e := by
  intro e he
  cases ts with
  | nil => cases he
  | cons t rest =>
    rw [List.mem_singleton.mp he]
    exact h _ _ _

/-- A token out of place, where one of some things is expected, may be reported while the tokens
left satisfy `R`. -/
def AllowsUnexpected (expectations : List String) (R : List (Token κ) → Prop) (E : ε → Prop) :
    Prop :=
  ∀ t ts, R (t :: ts) → ∀ expected ∈ expectations,
    E (Recovery.unexpected κ t.place t.width (described t) expected)

variable {expectations : List String} {R : List (Token κ) → Prop} {E : ε → Prop}

omit [DecidableEq κ] in
theorem recover_leaves (hR : Shrinks Recovery.endsStatement R) (h : R ts) : R (recover ts) :=
  hR.dropWhile h

theorem unexpected_leaves (hE : AllowsUnexpected expectations R E) (hx : expected ∈ expectations)
    (h : R ts) : ∀ e ∈ unexpected expected ts, E e := by
  intro e he
  cases ts with
  | nil => cases he
  | cons t rest =>
    rw [List.mem_singleton.mp he]
    exact hE t rest h expected hx

theorem refuse_leaves (hR : Shrinks Recovery.endsStatement R)
    (hE : AllowsUnexpected expectations R E) (hx : expected ∈ expectations) (h : R ts) :
    (refuse expected ts : Reading κ ε α).Leaves R E :=
  Reading.leaves_fail (recover_leaves hR h) (unexpected_leaves hE hx h)

theorem endLine_leaves (hR : Shrinks Recovery.endsStatement R)
    (hE : AllowsUnexpected expectations R E) (hx : "end of line" ∈ expectations)
    (h : r.Leaves R E) : (endLine r).Leaves R E := by
  unfold endLine
  split
  · exact h
  · refine ⟨recover_leaves hR h.rest, ?_⟩
    intro e he
    rcases List.mem_append.mp he with he | he
    · exact h.errors e he
    · exact unexpected_leaves hE hx h.rest e he

end

/-! ## Nesting -/

/-- The error an event carries, if it carries one, satisfies `E`. -/
def BlockEvent.Within {β σ ε : Type} (E : ε → Prop) : BlockEvent β σ ε → Prop
  | .opened _ | .placed _ => True
  | .closed unmatched => E unmatched
  | .branched _ outside => E outside

/-- The event opens only blocks with a property, and a branch keeps it. -/
def BlockEvent.Opens {β σ ε : Type} (B : β → Prop) : BlockEvent β σ ε → Prop
  | .opened block => B block
  | .branched change _ => ∀ block changed, B block → change block = some changed → B changed
  | .closed _ | .placed _ => True

namespace Nesting

variable {β σ ε : Type} {E : ε → Prop} {B : β → Prop}

theorem step_errors (wrap : β → List σ → σ) (n : Nesting β σ) {event : BlockEvent β σ ε}
    (h : event.Within E) : ∀ e ∈ (n.step wrap event).2, E e := by
  intro e he
  cases event with
  | opened block => cases he
  | placed statement => cases he
  | closed unmatched =>
    simp only [step] at he
    split at he
    · rw [List.mem_singleton.mp he]
      exact h
    · cases he
  | branched change outside =>
    simp only [step] at he
    split at he
    · rw [List.mem_singleton.mp he]
      exact h
    · split at he
      · cases he
      · rw [List.mem_singleton.mp he]
        exact h

/-- The errors of a run are those of its statements and of their events. -/
theorem run_errors (wrap : β → List σ → σ) (n : Nesting β σ)
    {items : List (Option (BlockEvent β σ ε) × List ε)}
    (h : ∀ item ∈ items, (∀ event ∈ item.1, event.Within E) ∧ ∀ e ∈ item.2, E e) :
    ∀ e ∈ (run wrap n items).2, E e := by
  induction items generalizing n with
  | nil => exact fun e he => by cases he
  | cons item rest ih =>
    obtain ⟨event, errors⟩ := item
    obtain ⟨hevent, herrors⟩ := h _ List.mem_cons_self
    have hrest := fun n => ih n fun item hm => h item (List.mem_cons_of_mem _ hm)
    intro e he
    cases event with
    | none =>
      simp only [run, List.nil_append] at he
      rcases List.mem_append.mp he with he | he
      · exact herrors e he
      · exact hrest _ e he
    | some event =>
      simp only [run] at he
      rcases List.mem_append.mp he with he | he
      · rcases List.mem_append.mp he with he | he
        · exact step_errors wrap n (hevent event rfl) e he
        · exact herrors e he
      · exact hrest _ e he

theorem step_blocks (wrap : β → List σ → σ) {n : Nesting β σ} (hn : ∀ block ∈ n.blocks, B block.1)
    {event : BlockEvent β σ ε} (h : event.Opens B) :
    ∀ block ∈ (n.step wrap event).1.blocks, B block.1 := by
  cases event with
  | opened block => exact List.forall_mem_cons.mpr ⟨h, hn⟩
  | placed statement => exact hn
  | closed unmatched =>
    simp only [step]
    split
    · exact hn
    · rename_i hblocks
      rw [hblocks] at hn
      exact (List.forall_mem_cons.mp hn).2
  | branched change outside =>
    simp only [step]
    split
    · exact hn
    · rename_i hblocks
      have hopen := hn
      rw [hblocks] at hopen
      obtain ⟨hblock, hrest⟩ := List.forall_mem_cons.mp hopen
      split
      · rename_i hchange
        exact List.forall_mem_cons.mpr ⟨h _ _ hblock hchange, hrest⟩
      · exact hn

/-- The blocks open after a run are those that were open and those that its events opened. -/
theorem run_blocks (wrap : β → List σ → σ) {n : Nesting β σ} (hn : ∀ block ∈ n.blocks, B block.1)
    {items : List (Option (BlockEvent β σ ε) × List ε)}
    (h : ∀ item ∈ items, ∀ event ∈ item.1, event.Opens B) :
    ∀ block ∈ (run wrap n items).1.blocks, B block.1 := by
  induction items generalizing n with
  | nil => exact hn
  | cons item rest ih =>
    obtain ⟨hitem, hrest⟩ := List.forall_mem_cons.mp h
    obtain ⟨event, errors⟩ := item
    cases event with
    | none => exact ih hn hrest
    | some event => exact ih (step_blocks wrap hn (hitem event rfl)) hrest

end Nesting

end DiagramLint
