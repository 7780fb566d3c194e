-- Texts spelled by pieces, each of which leads from one mode to the next.
-- A mode lets pass what the modes below it let pass. Where a text is spelled
-- from station to station, changes from station to station that are spelled
-- themselves leave a text that is spelled.
import DiagramLint.Proofs.Edit.Splice

namespace DiagramLint

variable {μ : Type} {Piece : μ → Text → μ → Prop} {le : μ → μ → Prop}

/-! ## Spellings -/

/-- The text is made of pieces that lead from one mode to the other. -/
inductive Spelling (Piece : μ → Text → μ → Prop) : μ → Text → μ → Prop where
  | nil (m : μ) : Spelling Piece m [] m
  | cons {m₁ m₂ m₃ : μ} {a b : Text} (ha : Piece m₁ a m₂) (hb : Spelling Piece m₂ b m₃) :
    Spelling Piece m₁ (a ++ b) m₃

namespace Spelling

variable {m m' e : μ} {a b : Text}

theorem single (h : Piece m a e) : Spelling Piece m a e := by
  simpa using cons h (nil e)

theorem append (ha : Spelling Piece m a m') (hb : Spelling Piece m' b e) :
    Spelling Piece m (a ++ b) e := by
  induction ha with
  | nil m => exact hb
  | cons hp _ ih =>
    rw [List.append_assoc]
    exact cons hp (ih hb)

theorem cases_first {t : Text} (h : Spelling Piece m t e) :
    t = [] ∧ e = m ∨ ∃ a b m', t = a ++ b ∧ Piece m a m' ∧ Spelling Piece m' b e := by
  cases h with
  | nil => exact .inl ⟨rfl, rfl⟩
  | cons hp hb => exact .inr ⟨_, _, _, rfl, hp, hb⟩

theorem head?_of_cons_eq_append {c : Char} {t : Text} (h : c :: t = a ++ b) (ha : a ≠ []) :
    a.head? = some c := by
  cases a with
  | nil => exact absurd rfl ha
  | cons d more =>
    rw [(List.cons.inj h).1]
    rfl

/-- Characters that are pieces of their own and keep a mode. -/
theorem of_chars (h : ∀ c ∈ a, Piece m [c] m) : Spelling Piece m a m := by
  induction a with
  | nil => exact nil m
  | cons c a ih =>
    exact cons (h c List.mem_cons_self) (ih fun d hd => h d (List.mem_cons_of_mem _ hd))

end Spelling

/-- Modes in order: a mode spells every piece that a mode below it has, and stays above. -/
structure Graded (Piece : μ → Text → μ → Prop) (le : μ → μ → Prop) : Prop where
  refl : ∀ m, le m m
  trans : ∀ {a b c}, le a b → le b c → le a c
  mono : ∀ {m a e m'}, Piece m a e → le m m' → ∃ e', le e e' ∧ Spelling Piece m' a e'

theorem Graded.spelling_mono (hg : Graded Piece le) {m e m' : μ} {a : Text}
    (h : Spelling Piece m a e) (hm : le m m') : ∃ e', le e e' ∧ Spelling Piece m' a e' := by
  induction h generalizing m' with
  | nil m => exact ⟨m', hm, .nil m'⟩
  | cons hp _ ih =>
    obtain ⟨mid, hmid, hfirst⟩ := hg.mono hp hm
    obtain ⟨e', he', hrest⟩ := ih hmid
    exact ⟨e', he', hfirst.append hrest⟩

/-- A spelling goes on where another one has led above its mode. -/
theorem Graded.spelling_append (hg : Graded Piece le) {m m₁ m₂ e : μ} {a b : Text}
    (ha : Spelling Piece m a m₂) (hle : le m₁ m₂) (hb : Spelling Piece m₁ b e) :
    ∃ e', le e e' ∧ Spelling Piece m (a ++ b) e' := by
  obtain ⟨e', he', hrest⟩ := hg.spelling_mono hb hle
  exact ⟨e', he', ha.append hrest⟩

/-! ## Stations -/

/-- Offsets of a text with modes: between two of them the text is spelled, and the last one is the
end of the text. -/
structure Stations (Piece : μ → Text → μ → Prop) (le : μ → μ → Prop) (t : Text)
    (At : Nat → μ → Prop) : Prop where
  boundary : ∀ {n m}, At n m → t.Boundary n
  ends : ∃ m, At t.byteSize m
  spells : ∀ {n m n' m'}, At n m → At n' m' → n ≤ n' →
    ∃ e, le m' e ∧ Spelling Piece m (t.slice n n') e

/-- A change between two stations: what it makes of the text from the one to the other is
spelled. -/
structure Mends (Piece : μ → Text → μ → Prop) (le : μ → μ → Prop) (t : Text)
    (At : Nat → μ → Prop) (c : Change) (n n' : Nat) : Prop where
  le_start : n ≤ c.1.start
  stop_le : c.1.stop ≤ n'
  spells : ∃ m m' e, At n m ∧ At n' m' ∧ le m' e ∧
    Spelling Piece m (t.slice n c.1.start ++ c.2 ++ t.slice c.1.stop n') e

/-- Changes between stations from some offset on, each behind the one before. -/
inductive MendsFrom (Piece : μ → Text → μ → Prop) (le : μ → μ → Prop) (t : Text)
    (At : Nat → μ → Prop) : Nat → List Change → Prop where
  | nil (n : Nat) : MendsFrom Piece le t At n []
  | cons {n k k' : Nat} {c : Change} {rest : List Change} (hk : n ≤ k)
    (hc : Mends Piece le t At c k k') (hr : MendsFrom Piece le t At k' rest) :
    MendsFrom Piece le t At n (c :: rest)

section

variable {t : Text} {At : Nat → μ → Prop}

theorem MendsFrom.le_start {n : Nat} {changes : List Change}
    (h : MendsFrom Piece le t At n changes) (hf : Fitting t changes) :
    ∀ c ∈ changes, n ≤ c.1.start := by
  induction h with
  | nil n => exact fun c hc => by cases hc
  | cons hk hc _ ih =>
    have h1 := hc.le_start
    have h2 := hc.stop_le
    have h3 := (hf _ List.mem_cons_self).2.2
    intro d hd
    rcases List.mem_cons.mp hd with rfl | hd
    · omega
    · have := ih (fun c hc => hf c (List.mem_cons_of_mem _ hc)) d hd
      omega

/-- A text with changes between its stations is spelled from every station on, up to its end. -/
theorem Stations.spells_splice (hs : Stations Piece le t At) (hg : Graded Piece le) {n : Nat}
    {changes : List Change} (hm : MendsFrom Piece le t At n changes) (hf : Fitting t changes)
    {m m' : μ} (hn : At n m) (hle : le m m') :
    ∃ last e, At t.byteSize last ∧ le last e ∧ Spelling Piece m' (t.spliceFrom n changes) e := by
  induction hm generalizing m m' with
  | nil n =>
    obtain ⟨last, hlast⟩ := hs.ends
    have hsize : n ≤ t.byteSize := by
      obtain ⟨a, b, rfl, rfl⟩ := hs.boundary hn
      simp
    obtain ⟨e, hend, hspell⟩ := hs.spells hn hlast hsize
    obtain ⟨e', hend', hspell'⟩ := hg.spelling_mono hspell hle
    exact ⟨last, e', hlast, hg.trans hend hend', hspell'⟩
  | @cons n k k' c rest hk hc hr ih =>
    obtain ⟨range, newText⟩ := c
    obtain ⟨m₁, m₂, e₂, hat₁, hat₂, hle₂, hnew⟩ := hc.spells
    have hrest : Fitting t rest := fun c hc => hf c (List.mem_cons_of_mem _ hc)
    obtain ⟨hstart, hstop, -⟩ := hf _ List.mem_cons_self
    have h1 := hc.le_start
    have h2 := hc.stop_le
    -- up to the station before the change, through the change, and on from the station behind it
    obtain ⟨e₁, hle₁, hlead⟩ := hs.spells hn hat₁ hk
    obtain ⟨e₁', hle₁', hlead'⟩ := hg.spelling_mono hlead hle
    obtain ⟨e₂', hle₂', hmid⟩ := hg.spelling_append hlead' (hg.trans hle₁ hle₁') hnew
    obtain ⟨last, e, hlast, hend, hafter⟩ := ih hrest hat₂ (hg.trans hle₂ hle₂')
    refine ⟨last, e, hlast, hend, ?_⟩
    have hsplit : t.spliceFrom n ((range, newText) :: rest) =
        t.slice n k ++ (t.slice k range.start ++ newText ++ t.slice range.stop k') ++
          t.spliceFrom k' rest := by
      rw [Text.spliceFrom, Text.spliceFrom_split hstop (hs.boundary hat₂) h2 hrest
        (hr.le_start hrest), ← Text.slice_append_slice (hs.boundary hn) (hs.boundary hat₁) hstart
        hk h1]
      simp only [List.append_assoc]
    rw [hsplit]
    exact hmid.append hafter

end

end DiagramLint
