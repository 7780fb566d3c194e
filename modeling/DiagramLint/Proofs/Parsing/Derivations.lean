-- Pieces of grammars over tokens: a run that ends in its only end of text, a
-- token that may be left out, and statements with separators between them.
-- A reading derives a value when, unless it reports an error, it has made
-- that value of the tokens it took.
import DiagramLint.Parsing.Reading

namespace DiagramLint

variable {κ ε α E : Type}

/-! ## Runs of tokens with an end -/

/-- The last token, and no other, is of the kind that ends a text. -/
def Terminated (eof : κ) (ts : List (Token κ)) : Prop :=
  ∃ body last, ts = body ++ [last] ∧ last.kind = eof ∧ ∀ t ∈ body, t.kind ≠ eof

namespace Terminated

variable {eof : κ} {t : Token κ} {ts : List (Token κ)}

theorem ne_nil (h : Terminated eof ts) : ts ≠ [] := by
  obtain ⟨body, last, rfl, -⟩ := h
  simp

theorem not_all {newline : κ} (h : Terminated eof ts) (he : eof ≠ newline) :
    ¬ ∀ t ∈ ts, t.kind = newline := by
  obtain ⟨body, last, rfl, hlast, -⟩ := h
  intro hall
  exact he (hlast.symm.trans (hall last (by simp)))

theorem cons (h : Terminated eof ts) (ht : t.kind ≠ eof) : Terminated eof (t :: ts) := by
  obtain ⟨body, last, rfl, hlast, hbody⟩ := h
  refine ⟨t :: body, last, rfl, hlast, ?_⟩
  intro t' hm
  rcases List.mem_cons.mp hm with rfl | hm
  · exact ht
  · exact hbody t' hm

theorem exists_cons (h : Terminated eof ts) : ∃ t rest, ts = t :: rest :=
  List.exists_cons_of_ne_nil h.ne_nil

theorem tail (h : Terminated eof (t :: ts)) (ht : t.kind ≠ eof) : Terminated eof ts := by
  obtain ⟨body, last, hts, hlast, hbody⟩ := h
  cases body with
  | nil =>
    cases hts
    exact absurd hlast ht
  | cons a body =>
    cases hts
    exact ⟨body, last, rfl, hlast, fun t hm => hbody t (List.mem_cons_of_mem _ hm)⟩

theorem eq_nil (h : Terminated eof (t :: ts)) (ht : t.kind = eof) : ts = [] := by
  obtain ⟨body, last, hts, -, hbody⟩ := h
  cases body with
  | nil =>
    cases hts
    rfl
  | cons a body =>
    cases hts
    exact absurd ht (hbody _ List.mem_cons_self)

/-- What is left of the tokens still ends in the end of the text. -/
theorem of_append {xs : List (Token κ)} (h : Terminated eof (xs ++ t :: ts)) :
    Terminated eof (t :: ts) := by
  induction xs with
  | nil => exact h
  | cons a xs ih =>
    refine ih (h.tail ?_)
    intro ha
    have := h.eq_nil ha
    simp at this

theorem dropWhile {p : κ → Bool} (h : Terminated eof ts) (hp : p eof = false) :
    Terminated eof (ts.dropWhile (p ·.kind)) := by
  induction ts with
  | nil => exact absurd rfl h.ne_nil
  | cons t ts ih =>
    rw [List.dropWhile_cons]
    split
    · rename_i ht
      refine ih (h.tail ?_)
      intro he
      rw [he, hp] at ht
      cases ht
    · exact h

end Terminated

/-- The tokens behind a statement: one that ends a statement comes first. -/
structure LineEnd (eof : κ) (ends : κ → Bool) (rest : List (Token κ)) : Prop where
  terminated : Terminated eof rest
  ends : ∀ t ∈ rest.head?, ends t.kind = true

theorem LineEnd.exists_cons {eof : κ} {ends : κ → Bool} {rest : List (Token κ)}
    (h : LineEnd eof ends rest) : ∃ t later, rest = t :: later ∧ ends t.kind = true := by
  obtain ⟨t, later, rfl⟩ := h.terminated.exists_cons
  exact ⟨t, later, rfl, h.ends t rfl⟩

/-! ## Tokens that may be left out -/

/-- No token, or one of a kind; its characters, if it is there. -/
inductive Optionally (p : κ → Bool) : List (Token κ) → Option String → Prop where
  | absent : Optionally p [] none
  | present (t : Token κ) (h : p t.kind = true) : Optionally p [t] (some t.image)

/-- The characters of the next token if it is of a kind, and the tokens behind it. -/
def takeOptional (p : κ → Bool) (ts : List (Token κ)) : Option String × List (Token κ) :=
  match ts with
  | t :: rest => if p t.kind then (some t.image, rest) else (none, ts)
  | [] => (none, [])

/-- The next token, if there is one, is of none of the kinds. -/
def NotAhead (p : κ → Bool) (ts : List (Token κ)) : Prop := ∀ t ∈ ts.head?, p t.kind = false

theorem notAhead_cons {p : κ → Bool} {t : Token κ} {ts : List (Token κ)} (h : p t.kind = false) :
    NotAhead p (t :: ts) := by
  intro t' ht
  cases ht
  exact h

theorem NotAhead.mono {p q : κ → Bool} {ts : List (Token κ)} (h : NotAhead p ts)
    (hq : ∀ k, q k = true → p k = true) : NotAhead q ts := by
  intro t ht
  cases hk : q t.kind with
  | false => rfl
  | true =>
    rw [← hq t.kind hk]
    exact h t ht

theorem takeOptional_derives (p : κ → Bool) (ts : List (Token κ)) :
    ∃ x, ts = x ++ (takeOptional p ts).2 ∧ Optionally p x (takeOptional p ts).1 := by
  unfold takeOptional
  split
  · rename_i t rest
    split
    · rename_i hp
      exact ⟨[t], rfl, .present t hp⟩
    · exact ⟨[], rfl, .absent⟩
  · exact ⟨[], rfl, .absent⟩

theorem takeOptional_terminated {p : κ → Bool} {eof : κ} {ts : List (Token κ)}
    (h : Terminated eof ts) (hp : p eof = false) : Terminated eof (takeOptional p ts).2 := by
  unfold takeOptional
  split
  · split
    · rename_i ht
      refine h.tail ?_
      intro he
      rw [he, hp] at ht
      cases ht
    · exact h
  · exact h

theorem takeOptional_append {p : κ → Bool} {x : List (Token κ)} {image : Option String}
    (h : Optionally p x image) {rest : List (Token κ)} (hr : NotAhead p rest) :
    takeOptional p (x ++ rest) = (image, rest) := by
  cases h with
  | absent =>
    cases rest with
    | nil => rfl
    | cons t rest => simp [takeOptional, hr t rfl]
  | present t ht => simp [takeOptional, ht]

/-! ## Readings -/

/-- Unless it reports an error, the reading has a value that a grammar derives from the tokens it
took, and the tokens it leaves satisfy `F`. -/
def Reading.Derives (D : List (Token κ) → α → Prop) (F : List (Token κ) → Prop)
    (ts : List (Token κ)) (r : Reading κ ε α) : Prop :=
  r.errors = [] → ∃ x a, ts = x ++ r.rest ∧ r.value = some a ∧ D x a ∧ F r.rest

namespace Reading

variable {β : Type} {D : List (Token κ) → α → Prop} {F G : List (Token κ) → Prop}
  {ts : List (Token κ)}

theorem derives_of_errors {r : Reading κ ε α} (h : r.errors ≠ []) : r.Derives D F ts :=
  fun he => absurd he h

theorem derives_ok {x rest : List (Token κ)} {a : α} (hx : ts = x ++ rest) (hd : D x a)
    (hr : F rest) : (Reading.ok a rest : Reading κ ε α).Derives D F ts :=
  fun _ => ⟨x, a, hx, rfl, hd, hr⟩

/-- Tokens taken before count as tokens of the reading. -/
theorem Derives.prepend {r : Reading κ ε α} (x : List (Token κ))
    (h : r.Derives (fun y => D (x ++ y)) F ts) : r.Derives D F (x ++ ts) := by
  intro he
  obtain ⟨y, a, hy, hv, hd, hr⟩ := h he
  exact ⟨x ++ y, a, by rw [List.append_assoc, ← hy], hv, hd, hr⟩

/-- The value changed, and what the tokens stand for with it. -/
theorem Derives.map {r : Reading κ ε α} (h : r.Derives D F ts) (f : α → β)
    {D' : List (Token κ) → β → Prop} (hd : ∀ x a, D x a → D' x (f a)) :
    (r.map f).Derives D' F ts := by
  intro he
  obtain ⟨x, a, hx, hv, ha, hr⟩ := h he
  exact ⟨x, f a, hx, by simp [Reading.map, hv], hd x a ha, hr⟩

/-- Two readings one after the other derive from the tokens of both. -/
theorem Derives.andThen {r : Reading κ ε α} (h : r.Derives D F ts)
    {next : α → List (Token κ) → Reading κ ε β} {D' : List (Token κ) → β → Prop}
    (hn : ∀ x a, D x a → F r.rest → (next a r.rest).Derives (fun y => D' (x ++ y)) G r.rest) :
    (r.andThen next).Derives D' G ts := by
  intro he
  unfold Reading.andThen at he ⊢
  cases hv : r.value with
  | none =>
    rw [hv] at he
    obtain ⟨x, a, -, hsome, -⟩ := h he
    rw [hv] at hsome
    cases hsome
  | some a =>
    rw [hv] at he
    obtain ⟨hfirst, hnext⟩ := List.append_eq_nil_iff.mp he
    obtain ⟨x, a', hx, hsome, ha, hr⟩ := h hfirst
    rw [hv, Option.some.injEq] at hsome
    subst hsome
    have hboth := (hn x a ha hr).prepend x
    rw [← hx] at hboth
    exact hboth hnext

end Reading

/-! ## Lines -/

/-- Statements one after the other, each with a separator behind it, and more separators where
they please. -/
inductive Lines (ends : κ → Bool) (line : List (Token κ) → E → Prop) :
    List (Token κ) → List E → Prop where
  | nil : Lines ends line [] []
  | gap {t : Token κ} {ts : List (Token κ)} {es : List E} (ht : ends t.kind = true)
    (h : Lines ends line ts es) : Lines ends line (t :: ts) es
  | line {x ts : List (Token κ)} {t : Token κ} {e : E} {es : List E} (hx : line x e)
    (ht : ends t.kind = true) (h : Lines ends line ts es) :
    Lines ends line (x ++ t :: ts) (e :: es)

namespace Lines

variable {ends : κ → Bool} {line : List (Token κ) → E → Prop}

theorem gaps {xs ts : List (Token κ)} {es : List E} (hx : ∀ t ∈ xs, ends t.kind = true)
    (h : Lines ends line ts es) : Lines ends line (xs ++ ts) es := by
  induction xs with
  | nil => exact h
  | cons t xs ih =>
    exact .gap (hx t List.mem_cons_self) (ih fun t hm => hx t (List.mem_cons_of_mem _ hm))

theorem append {ts ts' : List (Token κ)} {es es' : List E} (h : Lines ends line ts es)
    (h' : Lines ends line ts' es') : Lines ends line (ts ++ ts') (es ++ es') := by
  induction h with
  | nil => exact h'
  | gap ht _ ih => exact .gap ht ih
  | line hx ht _ ih =>
    rw [List.append_assoc]
    exact .line hx ht ih

theorem eq_nil {es : List E} (h : Lines ends line [] es) : es = [] := by
  generalize hts : [] = ts at h
  cases h with
  | nil => rfl
  | gap => cases hts
  | line => simp at hts

/-- A separator in front belongs to no statement, since none starts with one. -/
theorem of_gap {t : Token κ} {ts : List (Token κ)} {es : List E} (ht : ends t.kind = true)
    (hl : ∀ x e, line x e → ∃ a y, x = a :: y ∧ ends a.kind = false)
    (h : Lines ends line (t :: ts) es) : Lines ends line ts es := by
  generalize hts : t :: ts = all at h
  cases h with
  | nil => cases hts
  | gap _ h =>
    cases hts
    exact h
  | line hx _ _ =>
    obtain ⟨a, y, rfl, ha⟩ := hl _ _ hx
    cases hts
    rw [ha] at ht
    cases ht

theorem of_nil {ts : List (Token κ)} (h : Lines ends line ts []) :
    ∀ t ∈ ts, ends t.kind = true := by
  generalize hes : ([] : List E) = es at h
  induction h with
  | nil => exact fun _ hm => by cases hm
  | gap ht _ ih =>
    intro t hm
    rcases List.mem_cons.mp hm with rfl | hm
    · exact ht
    · exact ih hes t hm
  | line => cases hes

/-- The first of several statements, the separators before it left out. -/
theorem exists_of_cons {ts : List (Token κ)} {e : E} {es : List E}
    (h : Lines ends line ts (e :: es)) :
    ∃ gap x t rest, ts = gap ++ (x ++ t :: rest) ∧ (∀ t ∈ gap, ends t.kind = true) ∧ line x e ∧
      ends t.kind = true ∧ Lines ends line rest es := by
  generalize hes : e :: es = all at h
  induction h with
  | nil => cases hes
  | @gap t ts _ ht _ ih =>
    obtain ⟨gap, x, t', rest, rfl, hg, hx, ht', hr⟩ := ih hes
    refine ⟨t :: gap, x, t', rest, rfl, ?_, hx, ht', hr⟩
    intro t' hm
    rcases List.mem_cons.mp hm with rfl | hm
    · exact ht
    · exact hg t' hm
  | @line x ts t _ _ hx ht h _ =>
    cases hes
    exact ⟨[], x, t, ts, rfl, by simp, hx, ht, h⟩

/-- Any of several statements, with the separators before it on the side of the ones before. -/
theorem exists_of_append {ts : List (Token κ)} {es es' : List E} {e : E}
    (h : Lines ends line ts (es ++ e :: es')) :
    ∃ xs x t rest, ts = xs ++ (x ++ t :: rest) ∧ Lines ends line xs es ∧ line x e ∧
      ends t.kind = true ∧ Lines ends line rest es' := by
  induction es generalizing ts with
  | nil =>
    obtain ⟨gap, x, t, rest, hts, hg, hx, ht, hr⟩ := exists_of_cons h
    have hgap : Lines ends line (gap ++ []) ([] : List E) := Lines.nil.gaps hg
    rw [List.append_nil] at hgap
    exact ⟨gap, x, t, rest, hts, hgap, hx, ht, hr⟩
  | cons e' es ih =>
    obtain ⟨gap, y, t', rest', rfl, hg, hy, ht', hr'⟩ := exists_of_cons h
    obtain ⟨xs, x, t, rest, rfl, hxs, hx, ht, hr⟩ := ih hr'
    exact ⟨gap ++ (y ++ t' :: xs), x, t, rest, by simp, (Lines.line hy ht' hxs).gaps hg, hx, ht, hr⟩

end Lines

end DiagramLint
