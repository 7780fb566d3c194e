-- What is left of the raw forms of a table once a text is encoded: none, so
-- that encoding the text again changes nothing. The table must keep raw and
-- encoded forms apart, or an encoded form could complete a raw one.
import DiagramLint.Proofs.Attempts
import DiagramLint.Repair.Registry
import Mathlib.Data.List.Infix

namespace DiagramLint

/-! ## Tables that keep raw and encoded forms apart -/

/-- No encoded form is empty or has a character of a raw form. -/
structure Protective (rules : List EncodeRule) : Prop where
  encoded_ne_nil : ∀ r ∈ rules, r.encoded ≠ []
  apart : ∀ r ∈ rules, ∀ s ∈ rules, ∀ c ∈ r.raw, c ∉ s.encoded

instance (rules : List EncodeRule) : Decidable (Protective rules) :=
  decidable_of_iff
    ((∀ r ∈ rules, r.encoded ≠ []) ∧
      ∀ r ∈ rules, ∀ s ∈ rules, (r.raw.all fun c => !s.encoded.contains c) = true)
    ⟨fun h => ⟨h.1, by simpa using h.2⟩, fun h => ⟨h.encoded_ne_nil, by simpa using h.apart⟩⟩

/-- The tables of the built-in repairs. -/
def entityTables : List (List EncodeRule) := [escapedQuoteRules, rawQuoteRules, parenRules]

theorem Protective.mono {rules rules' : List EncodeRule} (h : Protective rules)
    (hsub : rules' ⊆ rules) : Protective rules' where
  encoded_ne_nil r hr := h.encoded_ne_nil r (hsub hr)
  apart r hr s hs := h.apart r (hsub hr) s (hsub hs)

/-- The built-in tables, one after the other in any order, keep the forms apart. -/
theorem protective_flatten {tables : List (List EncodeRule)} (h : tables ⊆ entityTables) :
    Protective tables.flatten := by
  have hall : Protective entityTables.flatten := by decide
  refine hall.mono fun r hr => ?_
  obtain ⟨table, htable, hmem⟩ := List.mem_flatten.mp hr
  exact List.mem_flatten.mpr ⟨table, h htable, hmem⟩

/-! ## What a text is encoded as -/

/-- A text is encoded as another one, piece by piece: an encoded form is kept, a raw form becomes
the encoded one, and a character where no raw form begins is copied. -/
inductive Encodes (rules : List EncodeRule) : Text → Text → Prop where
  | done : Encodes rules [] []
  | keep {r : EncodeRule} {t out : Text} : r ∈ rules → Encodes rules t out →
      Encodes rules (r.encoded ++ t) (r.encoded ++ out)
  | replace {r : EncodeRule} {t out : Text} : r ∈ rules → r.raw ≠ [] → Encodes rules t out →
      Encodes rules (r.raw ++ t) (r.encoded ++ out)
  | copy {c : Char} {t out : Text} : (∀ r ∈ rules, r.raw ≠ [] → ¬ r.raw <+: c :: t) →
      Encodes rules t out → Encodes rules (c :: t) (c :: out)

theorem encodeFrom_skip (rules : List EncodeRule) (n : Nat) (t : Text) :
    encodeFrom rules n t = encodeEntities rules (t.drop n) := by
  induction t generalizing n with
  | nil => cases n <;> rfl
  | cons c t ih =>
    cases n with
    | zero => rfl
    | succ n => exact ih n

/-- What is left behind a form that a text begins with. -/
theorem drop_pred_of_cons_eq_append {c : Char} {form t rest : Text} (hne : form ≠ [])
    (h : c :: t = form ++ rest) : t.drop (form.length - 1) = rest := by
  cases form with
  | nil => exact absurd rfl hne
  | cons d form =>
    rw [List.cons_append, List.cons.injEq] at h
    rw [h.2]
    simp

/-- How encoding goes on at a character: for ever where the earliest encoded form written there is
empty, and otherwise behind a form written already, behind a raw form, or behind the character. -/
theorem encodeEntities_cons (rules : List EncodeRule) (c : Char) (t : Text) :
    (∃ r, rules.find? (fun r => r.encoded.isPrefixOf (c :: t)) = some r ∧ r.encoded = [] ∧
        encodeEntities rules (c :: t) = .error .endless) ∨
      (∃ r rest, rules.find? (fun r => r.encoded.isPrefixOf (c :: t)) = some r ∧
        r.encoded ≠ [] ∧ c :: t = r.encoded ++ rest ∧
        encodeEntities rules (c :: t) = (encodeEntities rules rest).map (r.encoded ++ ·)) ∨
      (∀ r ∈ rules, r.encoded ≠ []) ∧
        ((∃ r ∈ rules, ∃ rest, r.raw ≠ [] ∧ c :: t = r.raw ++ rest ∧
            encodeEntities rules (c :: t) = (encodeEntities rules rest).map (r.encoded ++ ·)) ∨
          (∀ r ∈ rules, r.raw ≠ [] → ¬ r.raw <+: c :: t) ∧
            encodeEntities rules (c :: t) = (encodeEntities rules t).map (c :: ·)) := by
  rw [encodeEntities, encodeFrom]
  cases hkeep : rules.find? fun r => r.encoded.isPrefixOf (c :: t) with
  | some r =>
    by_cases hempty : r.encoded = []
    · exact .inl ⟨r, rfl, hempty, by simp [hempty]⟩
    · obtain ⟨rest, hrest⟩ : r.encoded <+: c :: t := by simpa using List.find?_some hkeep
      refine .inr (.inl ⟨r, rest, rfl, hempty, hrest.symm, ?_⟩)
      simp only [List.isEmpty_iff, hempty, if_false]
      rw [encodeFrom_skip, drop_pred_of_cons_eq_append hempty hrest.symm]
  | none =>
    have hnonempty : ∀ r ∈ rules, r.encoded ≠ [] := by
      intro r hr hempty
      simpa [hempty] using List.find?_eq_none.mp hkeep r hr
    refine .inr (.inr ⟨hnonempty, ?_⟩)
    dsimp only
    cases hraw : rules.find? fun r => !r.raw.isEmpty && r.raw.isPrefixOf (c :: t) with
    | some r =>
      obtain ⟨hne, rest, hrest⟩ : r.raw ≠ [] ∧ r.raw <+: c :: t := by
        simpa using List.find?_some hraw
      refine .inl ⟨r, List.mem_of_find?_eq_some hraw, rest, hne, hrest.symm, ?_⟩
      dsimp only
      rw [encodeFrom_skip, drop_pred_of_cons_eq_append hne hrest.symm]
    | none =>
      refine .inr ⟨fun r hr hne hstarts => ?_, rfl⟩
      simpa [hne, hstarts] using List.find?_eq_none.mp hraw r hr

theorem length_lt_of_cons_eq_append {c : Char} {form t rest : Text} (hne : form ≠ [])
    (h : c :: t = form ++ rest) : rest.length < (c :: t).length := by
  have hpos := List.length_pos_iff.mpr hne
  rw [h, List.length_append]
  omega

/-- What a text is encoded as is made piece by piece. -/
theorem encodes_of_eq_ok {rules : List EncodeRule} {t out : Text}
    (h : encodeEntities rules t = .ok out) : Encodes rules t out := by
  induction hn : t.length using Nat.strongRecOn generalizing t out with
  | ind n ih =>
    subst hn
    cases t with
    | nil =>
      cases h
      exact .done
    | cons c t =>
      rcases encodeEntities_cons rules c t with ⟨r, -, -, hstep⟩ |
        ⟨r, rest, hr, hne, hrest, hstep⟩ | ⟨-, ⟨r, hr, rest, hne, hrest, hstep⟩ | ⟨hno, hstep⟩⟩
      · cases hstep.symm.trans h
      · obtain ⟨out', hout', rfl⟩ := map_eq_ok_iff.mp (hstep.symm.trans h)
        rw [hrest]
        exact .keep (List.mem_of_find?_eq_some hr)
          (ih _ (length_lt_of_cons_eq_append hne hrest) hout' rfl)
      · obtain ⟨out', hout', rfl⟩ := map_eq_ok_iff.mp (hstep.symm.trans h)
        rw [hrest]
        exact .replace hr hne (ih _ (length_lt_of_cons_eq_append hne hrest) hout' rfl)
      · obtain ⟨out', hout', rfl⟩ := map_eq_ok_iff.mp (hstep.symm.trans h)
        exact .copy hno (ih _ (Nat.lt_succ_self _) hout' rfl)

/-- A text made of encoded forms only, each the earliest that is written at its place. -/
inductive Written (rules : List EncodeRule) : Text → Prop where
  | nil : Written rules []
  | form {r : EncodeRule} {rest : Text}
    (hr : rules.find? (fun r' => r'.encoded.isPrefixOf (r.encoded ++ rest)) = some r)
    (hne : r.encoded ≠ []) (hrest : Written rules rest) : Written rules (r.encoded ++ rest)

/-- Encoding comes to an end when no encoded form is empty, and also on a text that is written in
encoded forms from end to end; nowhere else. -/
theorem encodeEntities_returns_iff {rules : List EncodeRule} {t : Text} :
    (∃ out, encodeEntities rules t = .ok out) ↔
      (∀ r ∈ rules, r.encoded ≠ []) ∨ Written rules t := by
  induction hn : t.length using Nat.strongRecOn generalizing t with
  | ind n ih =>
    subst hn
    cases t with
    | nil => exact iff_of_true ⟨_, rfl⟩ (.inr .nil)
    | cons c t =>
      rcases encodeEntities_cons rules c t with ⟨r, hr, hempty, hstep⟩ |
        ⟨r, rest, hr, hne, hrest, hstep⟩ | ⟨hall, ⟨r, -, rest, hne, hrest, hstep⟩ | ⟨-, hstep⟩⟩
      · -- neither side: the empty form is the earliest one here
        rw [hstep]
        refine iff_of_false (fun ⟨out, h⟩ => nomatch h) ?_
        rintro (hall | hwritten)
        · exact hall r (List.mem_of_find?_eq_some hr) hempty
        · generalize hx : c :: t = x at hwritten
          cases hwritten with
          | nil => cases hx
          | form hr' hne' _ =>
            rw [hx] at hr
            exact hne' (Option.some.inj (hr'.symm.trans hr) ▸ hempty)
      · have hlt := length_lt_of_cons_eq_append hne hrest
        have hreturns : (∃ out, encodeEntities rules (c :: t) = .ok out) ↔
            ∃ out, encodeEntities rules rest = .ok out := by
          rw [hstep]
          exact exists_map_eq_ok_iff
        rw [hreturns, ih _ hlt rfl]
        refine or_congr_right ⟨fun hw => hrest ▸ .form (hrest ▸ hr) hne hw, fun hw => ?_⟩
        generalize hx : c :: t = x at hw
        cases hw with
        | nil => cases hx
        | form hr' hne' hw' =>
          rw [hx] at hr
          obtain rfl := Option.some.inj (hr'.symm.trans hr)
          rwa [List.append_cancel_left (hrest.symm.trans hx)]
      · refine iff_of_true ?_ (.inl hall)
        rw [hstep]
        exact exists_map_eq_ok_iff.mpr
          ((ih _ (length_lt_of_cons_eq_append hne hrest) rfl).mpr (.inl hall))
      · refine iff_of_true ?_ (.inl ‹_›)
        rw [hstep]
        exact exists_map_eq_ok_iff.mpr ((ih _ (Nat.lt_succ_self _) rfl).mpr (.inl ‹_›))

section

variable {rules : List EncodeRule} {t out x : Text}

/-- A character of an encoded text was there before, or is one of an encoded form. -/
theorem Encodes.mem_or_mem (h : Encodes rules t out) {c : Char} (hc : c ∈ out) :
    c ∈ t ∨ ∃ r ∈ rules, c ∈ r.encoded := by
  induction h with
  | done => exact .inl hc
  | keep hr _ ih | replace hr _ _ ih =>
    rcases List.mem_append.mp hc with hform | hrest
    · exact .inr ⟨_, hr, hform⟩
    · exact (ih hrest).imp_left (List.mem_append_right _)
  | copy _ _ ih =>
    rcases List.mem_cons.mp hc with rfl | hrest
    · exact .inl List.mem_cons_self
    · exact (ih hrest).imp_left (List.mem_cons_of_mem _)

theorem Encodes.ne_nil (h : Encodes rules t out) (hne : ∀ r ∈ rules, r.encoded ≠ []) (ht : t ≠ []) :
    out ≠ [] := by
  cases h with
  | done => exact ht
  | keep hr _ | replace hr _ _ => exact List.append_ne_nil_of_left_ne_nil (hne _ hr) _
  | copy _ _ => exact List.cons_ne_nil _ _

/-- A character at the end of an encoded text that no encoded form has was at the end before. -/
theorem Encodes.getLast? (h : Encodes rules t out) (hne : ∀ r ∈ rules, r.encoded ≠ []) {c : Char}
    (hc : ∀ r ∈ rules, c ∉ r.encoded) (hlast : out.getLast? = some c) : t.getLast? = some c := by
  induction h with
  | done => exact hlast
  | keep hr _ ih | replace hr _ _ ih =>
    rw [List.getLast?_append, Option.or_eq_some_iff] at hlast
    rcases hlast with hrest | ⟨-, hform⟩
    · rw [List.getLast?_append, ih hrest, Option.some_or]
    · exact absurd (List.mem_of_getLast? hform) (hc _ hr)
  | copy _ ht ih =>
    rw [List.getLast?_cons] at hlast ⊢
    rename_i _ t out _
    cases hrest : List.getLast? out with
    | some e =>
      rw [hrest] at hlast
      rw [ih (hrest.trans hlast), Option.getD_some]
    | none =>
      have hnil : t = [] := by
        by_contra ht'
        exact ht.ne_nil hne ht' (List.getLast?_eq_none_iff.mp hrest)
      rw [hrest] at hlast
      rw [hnil]
      exact hlast

/-! ## No raw form is left -/

/-- A word that an encoded text begins with, and that shares no character with an encoded form, was
there before. -/
theorem Encodes.prefix_of_prefix (h : Encodes rules t out) (hne : ∀ r ∈ rules, r.encoded ≠ [])
    (hx : ∀ r ∈ rules, ∀ c ∈ x, c ∉ r.encoded) (hout : x <+: out) : x <+: t := by
  induction h generalizing x with
  | done => exact hout
  | copy _ _ ih =>
    cases x with
    | nil => exact List.nil_prefix
    | cons d x =>
      rw [List.cons_prefix_cons] at hout ⊢
      exact hout.imp_right (ih fun r hr c hc => hx r hr c (List.mem_cons_of_mem d hc))
  | keep hr _ _ | replace hr _ _ _ =>
    cases x with
    | nil => exact List.nil_prefix
    | cons d x =>
      obtain ⟨e, encoded, heq⟩ := List.exists_cons_of_ne_nil (hne _ hr)
      rw [heq, List.cons_append, List.cons_prefix_cons] at hout
      exact absurd (by rw [heq, hout.1]; exact List.mem_cons_self)
        (hx _ hr d List.mem_cons_self)

/-- A word that shares no character with the text before is in the text behind. -/
theorem infix_of_infix_append {a b : Text} (hne : x ≠ []) (hx : ∀ c ∈ x, c ∉ a)
    (h : x <:+: a ++ b) : x <:+: b := by
  induction a with
  | nil => exact h
  | cons d a ih =>
    rw [List.cons_append, List.infix_cons_iff] at h
    rcases h with hstarts | hinside
    · obtain ⟨c, x, rfl⟩ := List.exists_cons_of_ne_nil hne
      rw [List.cons_prefix_cons] at hstarts
      exact absurd (hstarts.1 ▸ List.mem_cons_self) (hx c List.mem_cons_self)
    · exact ih (fun c hc hmem => hx c hc (List.mem_cons_of_mem d hmem)) hinside

theorem Encodes.no_raw (h : Encodes rules t out) (hp : Protective rules) :
    ∀ r ∈ rules, r.raw ≠ [] → ¬ r.raw <:+: out := by
  intro r hr hraw
  induction h with
  | done => simpa using hraw
  | keep hs _ ih | replace hs _ _ ih =>
    exact fun hinside => ih (infix_of_infix_append hraw (hp.apart r hr _ hs) hinside)
  | copy hcopy ht ih =>
    rw [List.infix_cons_iff]
    rintro (hstarts | hinside)
    · -- the rest of the raw form would have been there before
      obtain ⟨d, raw, heq⟩ := List.exists_cons_of_ne_nil hraw
      refine hcopy r hr hraw ?_
      rw [heq, List.cons_prefix_cons] at hstarts ⊢
      refine hstarts.imp_right (ht.prefix_of_prefix hp.encoded_ne_nil fun s hs c hc => ?_)
      exact hp.apart r hr s hs c (heq ▸ List.mem_cons_of_mem d hc)
    · exact ih hinside

/-- A text without raw forms is encoded as itself. -/
theorem Encodes.eq_of_no_raw (h : Encodes rules t out)
    (hno : ∀ r ∈ rules, r.raw ≠ [] → ¬ r.raw <:+: t) : out = t := by
  induction h with
  | done => rfl
  | keep _ _ ih =>
    rw [ih fun r hr hne hinside => hno r hr hne (hinside.trans (List.suffix_append _ _).isInfix)]
  | replace hr hne _ _ => exact absurd (List.prefix_append _ _).isInfix (hno _ hr hne)
  | copy _ _ ih =>
    rw [ih fun r hr hne hinside => hno r hr hne (List.infix_cons hinside)]

end

/-- The built-in tables and what they are put together to keep raw and encoded forms apart. Every
text has an encoded form by such a table; there is no raw form in it, and it is encoded as
itself. -/
theorem an_encoded_text_has_nothing_to_encode :
    (∀ tables ⊆ entityTables, Protective tables.flatten) ∧
    ∀ rules : List EncodeRule, Protective rules → ∀ t : Text,
      ∃ out, encodeEntities rules t = .ok out ∧
        (∀ r ∈ rules, r.raw ≠ [] → ¬ r.raw <:+: out) ∧ encodeEntities rules out = .ok out := by
  refine ⟨fun _ => protective_flatten, fun rules hp t => ?_⟩
  have hreturns (t : Text) : ∃ out, encodeEntities rules t = .ok out :=
    encodeEntities_returns_iff.mpr (.inl hp.encoded_ne_nil)
  obtain ⟨out, hout⟩ := hreturns t
  have hno := (encodes_of_eq_ok hout).no_raw hp
  obtain ⟨again, hagain⟩ := hreturns out
  refine ⟨out, hout, hno, ?_⟩
  rw [hagain, (encodes_of_eq_ok hagain).eq_of_no_raw hno]

theorem an_encoded_label_has_nothing_to_encode :
    Protective (parenRules ++ escapedQuoteRules) ∧
      encodeEntities (parenRules ++ escapedQuoteRules) "a (b) \\\"&#40;".toList =
        .ok "a &#40;b&#41; &quot;&#40;".toList ∧
      encodeEntities (parenRules ++ escapedQuoteRules) "a &#40;b&#41; &quot;&#40;".toList =
        .ok "a &#40;b&#41; &quot;&#40;".toList := by
  have hp : Protective (parenRules ++ escapedQuoteRules) := by decide
  have heq : encodeEntities (parenRules ++ escapedQuoteRules) "a (b) \\\"&#40;".toList =
      .ok "a &#40;b&#41; &quot;&#40;".toList := by decide
  obtain ⟨out, hout, -, hagain⟩ := an_encoded_text_has_nothing_to_encode.2 _ hp
    "a (b) \\\"&#40;".toList
  obtain rfl := Except.ok.inj (heq.symm.trans hout)
  exact ⟨hp, heq, hagain⟩

end DiagramLint
