-- Reading what was written. However a JSON value is laid out, its text spells
-- the value again: an escaped string is read character by character, the
-- digits of a number stop where they were written to stop, and brackets and
-- commas close and divide what they were put around.
import Mathlib.Data.List.TakeWhile
import Mathlib.Tactic.FinCases
import DiagramLint.Json.Reader
import DiagramLint.Json.Writer

namespace DiagramLint.Json

/-! ## Blanks -/

theorem skipBlanks_of_head {c : Char} (h : c ∉ [' ', '\t', '\n', '\r']) (t : Text) :
    skipBlanks (c :: t) = c :: t := by
  have hblank : (c == ' ' || c == '\t' || c == '\n' || c == '\r') = false := by
    simpa [and_assoc] using h
  simp [skipBlanks, hblank]

/-- The blanks of a line break do not count. -/
theorem skipBlanks_lineBreak (layout : Layout) (t : Text) :
    skipBlanks (layout.lineBreak ++ t) = skipBlanks t := by
  cases layout with
  | compact => rfl
  | indented depth =>
    refine List.dropWhile_append_of_pos fun c hc => ?_
    obtain rfl | hspace := List.mem_cons.mp hc
    · rfl
    · rw [List.eq_of_mem_replicate hspace]
      rfl

/-! ## Strings -/

theorem hexValue?_hexDigit {n : Nat} (h : n < 16) : hexValue? (hexDigit n) = some n := by
  revert n
  decide

/-- A control in its escaped form. -/
theorem hexUnit?_control {c : Char} (h : c.toNat < 0x20) :
    hexUnit? '0' '0' (hexDigit (c.toNat / 16)) (hexDigit (c.toNat % 16)) = some c.toNat := by
  have hzero : hexValue? '0' = some 0 := rfl
  have hhigh := hexValue?_hexDigit (n := c.toNat / 16) (by omega)
  have hlow := hexValue?_hexDigit (n := c.toNat % 16) (by omega)
  simp only [hexUnit?, hzero, hhigh, hlow, Option.bind_eq_bind, Option.bind_some, Option.pure_def,
    Option.some.injEq]
  omega

theorem readChars_quote (t : Text) : readChars ('"' :: t) = some ([], t) := by rw [readChars]

theorem readChars_escaped {letter c : Char} (h : escaped? letter = some c) (t : Text) :
    readChars ('\\' :: letter :: t) =
      (readChars t).map fun (chars, rest) => (c :: chars, rest) := by
  have hne : letter ≠ 'u' := by
    rintro rfl
    cases h
  rw [readChars]
  · simp only [h, Option.bind_eq_bind, Option.bind_some, Option.pure_def]
    cases readChars t <;> rfl
  · simp [hne]

theorem readChars_unit {a b c d : Char} {n : Nat} (h : hexUnit? a b c d = some n)
    (hn : n < 0xd800) (t : Text) :
    readChars ('\\' :: 'u' :: a :: b :: c :: d :: t) =
      (readChars t).map fun (chars, rest) => (Char.ofNat n :: chars, rest) := by
  rw [readChars]
  simp only [h, hn, true_or, ↓reduceIte, Option.bind_eq_bind, Option.bind_some, Option.pure_def]
  cases readChars t <;> rfl

theorem readChars_plain {c : Char} (hquote : c ≠ '"') (hslash : c ≠ '\\') (hplain : 0x20 ≤ c.toNat)
    (t : Text) :
    readChars (c :: t) = (readChars t).map fun (chars, rest) => (c :: chars, rest) := by
  rw [readChars]
  · simp only [Nat.not_lt.mpr hplain, hslash, or_self, ↓reduceIte, Option.bind_eq_bind,
      Option.pure_def]
    cases readChars t <;> rfl
  · simp [hquote]
  · simp [hslash]
  · simp [hslash]

/-- A character is read from its written form. -/
theorem readChars_escapeChar (c : Char) (t : Text) :
    readChars (escapeChar c ++ t) = (readChars t).map fun (chars, rest) => (c :: chars, rest) := by
  have hcontrol : ∀ n, c.toNat = n → c = Char.ofNat n := fun n h => by
    rw [← h, Char.ofNat_toNat]
  unfold escapeChar
  split
  · exact readChars_escaped (by simp_all [escaped?]) t
  split
  · exact readChars_escaped (by simp_all [escaped?]) t
  split
  · exact readChars_escaped (by simp_all [escaped?]) t
  split
  · exact readChars_escaped (by simp_all [escaped?]) t
  split
  · exact readChars_escaped (by simp_all [escaped?]) t
  split
  · rename_i h
    exact readChars_escaped (by rw [hcontrol _ h]; rfl) t
  split
  · rename_i h
    exact readChars_escaped (by rw [hcontrol _ h]; rfl) t
  split
  · rename_i h
    have hread := readChars_unit (hexUnit?_control h) (by omega) t
    rwa [Char.ofNat_toNat] at hread
  · rename_i hquote hslash _ _ _ _ _ hplain
    exact readChars_plain hquote hslash (by omega) t

theorem readChars_flatMap (chars t : Text) :
    readChars (chars.flatMap escapeChar ++ '"' :: t) = some (chars, t) := by
  induction chars with
  | nil => exact readChars_quote t
  | cons c rest ih =>
    rw [List.flatMap_cons, List.append_assoc, readChars_escapeChar, ih]
    rfl

/-! ## Numbers -/

theorem digitsValue_toDigits (n : Nat) : Text.digitsValue (Nat.toDigits 10 n) = n := by
  have hsame : ∀ digits : Text, Text.digitsValue digits = Nat.ofDigitChars 10 digits 0 := by
    intro digits
    simp only [Text.digitsValue, Nat.ofDigitChars, Nat.mul_comm]
  rw [hsame, Nat.ofDigitChars_ten_toDigits]

/-- Only zero is written with a zero in front. -/
theorem head?_toDigits {n : Nat} (h : 0 < n) : (Nat.toDigits 10 n).head? ≠ some '0' := by
  induction n using Nat.strongRecOn with
  | ind n ih =>
    have hdigit : ∀ d < 10, 0 < d → [Nat.digitChar d].head? ≠ some '0' := by decide
    by_cases hsmall : n < 10
    · rw [Nat.toDigits_of_lt_base hsmall]
      exact hdigit n hsmall h
    · obtain ⟨d, digits, hdigits⟩ :=
        List.exists_cons_of_ne_nil (Nat.toDigits_ne_nil (n := n / 10) (b := 10))
      have hhead := ih (n / 10) (by omega) (by omega)
      rw [Nat.toDigits_of_base_le (by omega) (by omega), hdigits]
      rw [hdigits] at hhead
      exact hhead

/-- The text goes on with nothing that belongs to a number. -/
def EndsNumber (t : Text) : Prop := ∀ c ∈ t.head?, c.isDigit = false ∧ c ∉ ['.', 'e', 'E']

theorem readDigits_toDigits (n : Nat) {t : Text} (h : ∀ c ∈ t.head?, c.isDigit = false) :
    readDigits (Nat.toDigits 10 n ++ t) = some (Nat.toDigits 10 n, t) := by
  have hdigits : ∀ c ∈ Nat.toDigits 10 n, c.isDigit = true := fun c hc =>
    Nat.isDigit_of_mem_toDigits (by omega) (by omega) hc
  have htake : t.takeWhile Char.isDigit = [] ∧ t.dropWhile Char.isDigit = t := by
    cases t with
    | nil => exact ⟨rfl, rfl⟩
    | cons c rest =>
      have hc : ¬ c.isDigit = true := by simpa using h c rfl
      exact ⟨List.takeWhile_cons_of_neg hc, List.dropWhile_cons_of_neg hc⟩
  unfold readDigits
  rw [List.takeWhile_append_of_pos hdigits, List.dropWhile_append_of_pos hdigits, htake.1, htake.2]
  simp [Nat.toDigits_ne_nil]

theorem readWhole_toDigits (n : Nat) {t : Text} (h : ∀ c ∈ t.head?, c.isDigit = false) :
    readWhole (Nat.toDigits 10 n ++ t) = some (Nat.toDigits 10 n, t) := by
  have hlead : ¬ ((Nat.toDigits 10 n).length > 1 ∧ (Nat.toDigits 10 n).head? = some '0') := by
    rintro ⟨hlength, hhead⟩
    obtain rfl | hpos := Nat.eq_zero_or_pos n
    · simp at hlength
    · exact head?_toDigits hpos hhead
  unfold readWhole
  rw [readDigits_toDigits n h]
  simp only [Option.bind_eq_bind, Option.bind_some, hlead, ↓reduceIte]

/-- The digits of a number begin with no sign. -/
theorem exists_toDigits (n : Nat) :
    ∃ d digits, Nat.toDigits 10 n = d :: digits ∧ d.isDigit = true := by
  obtain ⟨d, digits, hdigits⟩ := List.exists_cons_of_ne_nil (Nat.toDigits_ne_nil (n := n) (b := 10))
  have hmem : d ∈ Nat.toDigits 10 n := hdigits ▸ List.mem_cons_self
  exact ⟨d, digits, hdigits, Nat.isDigit_of_mem_toDigits (by omega) (by omega) hmem⟩

theorem readSign_renderInt (n : Int) (t : Text) :
    readSign (renderInt n ++ t) = (decide (n < 0), Nat.toDigits 10 n.natAbs ++ t) := by
  unfold renderInt
  by_cases hneg : n < 0
  · simp [hneg, readSign]
  · obtain ⟨d, digits, hdigits, hd⟩ := exists_toDigits n.natAbs
    have hsign : d ≠ '-' := by
      rintro rfl
      cases hd
    simp [hneg, hdigits, readSign, hsign]

theorem readPower_renderInt (n : Int) {t : Text} (h : EndsNumber t) :
    readPower (renderInt n ++ t) = some (n, t) := by
  have hread := readDigits_toDigits n.natAbs (t := t) fun c hc => (h c hc).1
  unfold renderInt
  by_cases hneg : n < 0
  · simp only [hneg, ↓reduceIte, List.cons_append, readPower, hread, Option.map_some,
      digitsValue_toDigits, Option.some.injEq, Prod.mk.injEq, and_true]
    omega
  · obtain ⟨d, digits, hdigits, hd⟩ := exists_toDigits n.natAbs
    have hsign : d ≠ '-' ∧ d ≠ '+' := by
      constructor <;> rintro rfl <;> cases hd
    have hvalue := digitsValue_toDigits n.natAbs
    rw [hdigits] at hread hvalue
    rw [if_neg hneg, hdigits, List.cons_append, readPower.eq_3]
    · simp only [← List.cons_append, hread, Option.map_some, hvalue, Option.some.injEq,
        Prod.mk.injEq, and_true]
      omega
    · simp [hsign.1]
    · simp [hsign.2]

/-- A number is read with whatever fraction and exponent follow its digits. -/
theorem readNumber_eq (n : Int) {t : Text} (h : ∀ c ∈ t.head?, c.isDigit = false ∧ c ≠ '.') :
    readNumber (renderInt n ++ t) = (readExponent t).bind fun (exponent, rest) =>
      match exponent with
      | none => some (.integer n, rest)
      | some power => some (.decimal n power, rest) := by
  have hfraction : readFraction t = some ([], t) := by
    cases t with
    | nil => rfl
    | cons c rest => rw [readFraction]; simpa using (h c rfl).2
  have hvalue : (if decide (n < 0) = true then -(n.natAbs : Int) else n.natAbs) = n := by
    simp only [decide_eq_true_eq]
    omega
  have hzero : (decide (n < 0) && ((n.natAbs : Int) == 0)) = false := by
    simp
    omega
  unfold readNumber
  rw [readSign_renderInt]
  simp only [readWhole_toDigits _ fun c hc => (h c hc).1, hfraction, Option.bind_eq_bind,
    Option.bind_some, List.append_nil, digitsValue_toDigits, hvalue, hzero]
  congr 1
  funext ⟨exponent, rest⟩
  cases exponent <;> simp

theorem readNumber_renderNumber (n : JsonNumber) {t : Text} (h : EndsNumber t) :
    readNumber (renderNumber n ++ t) = some (n, t) := by
  cases n with
  | integer n =>
    have hexponent : readExponent t = some (none, t) := by
      cases t with
      | nil => rfl
      | cons c rest =>
        obtain ⟨-, hc⟩ := h c rfl
        rw [readExponent] <;> simp_all
    rw [renderNumber, readNumber_eq n fun c hc => ⟨(h c hc).1, fun hdot => ?_⟩, hexponent]
    · rfl
    · simp_all [EndsNumber]
  | decimal m e =>
    have hexponent : readExponent ('e' :: (renderInt e ++ t)) = some (some e, t) := by
      rw [readExponent, readPower_renderInt e h]
      rfl
    rw [renderNumber, List.append_assoc, List.cons_append, readNumber_eq, hexponent]
    · rfl
    · simp

/-! ## Nesting -/

mutual

/-- How deeply the brackets of a value stand inside each other. -/
def depth : Json → Nat
  | .array items => depthOfItems items + 1
  | .object fields => depthOfFields fields + 1
  | _ => 0

/-- The depth of the deepest item. -/
def depthOfItems : List Json → Nat
  | [] => 0
  | v :: rest => max v.depth (depthOfItems rest)

/-- The depth of the deepest field. -/
def depthOfFields : List (String × Json) → Nat
  | [] => 0
  | (_, v) :: rest => max v.depth (depthOfFields rest)

end

theorem depthOfItems_le_iff {items : List Json} {n : Nat} :
    depthOfItems items ≤ n ↔ ∀ v ∈ items, v.depth ≤ n := by
  induction items with
  | nil => simp [depthOfItems]
  | cons v rest ih => rw [depthOfItems, Nat.max_le, ih, List.forall_mem_cons]

theorem depthOfFields_le_iff {fields : List (String × Json)} {n : Nat} :
    depthOfFields fields ≤ n ↔ ∀ field ∈ fields, field.2.depth ≤ n := by
  induction fields with
  | nil => simp [depthOfFields]
  | cons field rest ih => rw [depthOfFields, Nat.max_le, ih, List.forall_mem_cons]

/-- Induction over values: an array over its items, an object over the values of its fields. -/
@[elab_as_elim]
theorem nested_induction {motive : Json → Prop} (null : motive .null)
    (bool : ∀ b, motive (.bool b)) (number : ∀ n, motive (.number n))
    (string : ∀ s, motive (.string s))
    (array : ∀ items, (∀ v ∈ items, motive v) → motive (.array items))
    (object : ∀ fields, (∀ field ∈ fields, motive field.2) → motive (.object fields)) (v : Json) :
    motive v :=
  match v with
  | .null => null
  | .bool b => bool b
  | .number n => number n
  | .string s => string s
  | .array items => array items fun v _ =>
      nested_induction null bool number string array object v
  | .object fields => object fields fun field _ =>
      nested_induction null bool number string array object field.2
termination_by sizeOf v
decreasing_by
  · have hsize := List.sizeOf_lt_of_mem ‹v ∈ items›
    simp only [Json.array.sizeOf_spec]
    omega
  · have hsize := List.sizeOf_lt_of_mem ‹field ∈ fields›
    obtain ⟨name, v⟩ := field
    simp only [Prod.mk.sizeOf_spec, Json.object.sizeOf_spec] at hsize ⊢
    omega

/-! ## Values -/

variable {layout : Layout} {fuel depth : Nat} {rest after behind : Text}

theorem readValue_congr {a b : Text} (h : skipBlanks a = skipBlanks b) :
    readValue fuel depth a = readValue fuel depth b := by
  cases fuel with
  | zero => rfl
  | succ fuel => rw [readValue, readValue, h]

theorem readItems_congr {a b : Text} (h : skipBlanks a = skipBlanks b) :
    readItems fuel depth a = readItems fuel depth b := by
  cases fuel with
  | zero => rfl
  | succ fuel => rw [readItems, readItems, readValue_congr h]

theorem readFields_congr {a b : Text} (h : skipBlanks a = skipBlanks b) :
    readFields fuel depth a = readFields fuel depth b := by
  cases fuel with
  | zero => rfl
  | succ fuel => rw [readFields, readFields, h]

theorem renderInt_begins (n : Int) : ∃ c t, renderInt n = c :: t ∧ (c = '-' ∨ c.isDigit = true) := by
  unfold renderInt
  by_cases hneg : n < 0
  · exact ⟨_, _, if_pos hneg, .inl rfl⟩
  · obtain ⟨d, digits, hdigits, hd⟩ := exists_toDigits n.natAbs
    exact ⟨d, digits, (if_neg hneg).trans hdigits, .inr hd⟩

theorem renderNumber_begins (n : JsonNumber) :
    ∃ c t, renderNumber n = c :: t ∧ (c = '-' ∨ c.isDigit = true) := by
  cases n with
  | integer n => exact renderInt_begins n
  | decimal m e =>
    obtain ⟨c, t, hm, hc⟩ := renderInt_begins m
    exact ⟨c, t ++ 'e' :: renderInt e, by rw [renderNumber, hm, List.cons_append], hc⟩

/-- A value begins with a character that is neither a blank nor a closing bracket. -/
theorem exists_render (layout : Layout) (v : Json) :
    ∃ c t, render layout v = c :: t ∧ c ∉ [' ', '\t', '\n', '\r'] ∧ c ≠ ']' := by
  cases v with
  | null => exact ⟨_, _, rfl, by decide, by decide⟩
  | bool b => cases b <;> exact ⟨_, _, rfl, by decide, by decide⟩
  | number n =>
    obtain ⟨c, t, hn, hc⟩ := renderNumber_begins n
    refine ⟨c, t, by rw [render, hn], ?_, ?_⟩
    · intro hblank
      fin_cases hblank <;> simp at hc
    · rintro rfl
      simp at hc
  | string s => exact ⟨_, _, rfl, by decide, by decide⟩
  | array items => cases items <;> exact ⟨_, _, rfl, by decide, by decide⟩
  | object fields => cases fields <;> exact ⟨_, _, rfl, by decide, by decide⟩

theorem skipBlanks_render (layout : Layout) (v : Json) (rest : Text) :
    skipBlanks (render layout v ++ rest) = render layout v ++ rest := by
  obtain ⟨c, t, hrender, hc, -⟩ := exists_render layout v
  rw [hrender, List.cons_append, skipBlanks_of_head hc]

theorem endsNumber_of_head {c : Char} (h : c ∈ [']', '}', ',']) (t : Text) : EndsNumber (c :: t) := by
  rintro d ⟨⟩
  fin_cases h <;> decide

theorem endsNumber_lineBreak {c : Char} (h : c ∈ [']', '}', ',']) (t : Text) :
    EndsNumber (layout.lineBreak ++ c :: t) := by
  cases layout with
  | compact => exact endsNumber_of_head h t
  | indented depth =>
    rintro d ⟨⟩
    decide

theorem endsNumber_renderItems (layout : Layout) (items : List Json) (t : Text) :
    EndsNumber (renderItems layout items ++ t) := by
  cases items with
  | nil =>
    rw [renderItems, List.append_assoc]
    exact endsNumber_lineBreak (by decide) t
  | cons v rest => exact endsNumber_of_head (by decide) _

theorem endsNumber_renderFields (layout : Layout) (fields : List (String × Json)) (t : Text) :
    EndsNumber (renderFields layout fields ++ t) := by
  cases fields with
  | nil =>
    rw [renderFields, List.append_assoc]
    exact endsNumber_lineBreak (by decide) t
  | cons field rest => exact endsNumber_of_head (by decide) _

/-- Laid out in any way, the text of the value is read as the value, whatever follows. -/
def ReadsBack (v : Json) : Prop :=
  ∀ {layout : Layout} {fuel depth : Nat} {rest : Text}, 2 * (render layout v).length ≤ fuel →
    v.depth ≤ depth → EndsNumber rest →
    readValue fuel depth (render layout v ++ rest) = some (v, rest)

/-- A value takes a character at least, and so there is fuel for it. -/
theorem exists_fuel {v : Json} (h : 2 * (render layout v).length ≤ fuel) :
    ∃ more, fuel = more + 1 := by
  obtain ⟨c, t, hrender, -⟩ := exists_render layout v
  rw [hrender, List.length_cons] at h
  exact Nat.exists_eq_add_of_le' (by omega)

theorem readsBack_number (n : JsonNumber) : ReadsBack (.number n) := by
  intro layout fuel depth rest hfuel _ hrest
  obtain ⟨fuel, rfl⟩ := exists_fuel hfuel
  obtain ⟨c, t, hn, hc⟩ := renderNumber_begins n
  have hread := readNumber_renderNumber n hrest
  rw [readValue, skipBlanks_render, render]
  rw [hn, List.cons_append] at hread ⊢
  split <;> simp_all

theorem readsBack_string (s : String) : ReadsBack (.string s) := by
  intro layout fuel depth rest hfuel _ _
  obtain ⟨fuel, rfl⟩ := exists_fuel hfuel
  have hread := readChars_flatMap s.toList rest
  rw [readValue, skipBlanks_render]
  simp [render, renderString, hread]

/-! ## Arrays -/

/-- The last item of an array. -/
theorem readItems_last {v : Json} (hv : readValue fuel depth rest = some (v, after))
    (hafter : skipBlanks after = ']' :: behind) :
    readItems (fuel + 1) depth rest = some ([v], behind) := by
  simp [readItems, hv, hafter]

/-- An item with others behind it. -/
theorem readItems_more {v : Json} (hv : readValue fuel depth rest = some (v, after))
    (hafter : skipBlanks after = ',' :: behind) :
    readItems (fuel + 1) depth rest =
      (readItems fuel depth behind).map fun (items, t) => (v :: items, t) := by
  simp only [readItems, hv, hafter, Option.bind_eq_bind, Option.bind_some, Option.pure_def]
  cases readItems fuel depth behind <;> rfl

theorem readItems_render (rest : Text) {items : List Json} (hitems : ∀ v ∈ items, ReadsBack v)
    (hdepth : ∀ v ∈ items, v.depth ≤ depth) {v : Json} (hv : ReadsBack v) (hvdepth : v.depth ≤ depth)
    (hfuel : 2 * (render layout.deeper v ++ renderItems layout items).length ≤ fuel) :
    readItems fuel depth (render layout.deeper v ++ (renderItems layout items ++ rest)) =
      some (v :: items, rest) := by
  induction items generalizing v fuel with
  | nil =>
    rw [renderItems, List.length_append, List.length_append, List.length_singleton] at hfuel
    obtain ⟨fuel, rfl⟩ : ∃ more, fuel = more + 1 := Nat.exists_eq_add_of_le' (by omega)
    refine readItems_last (hv (by omega) hvdepth (endsNumber_renderItems _ _ _)) ?_
    rw [renderItems, List.append_assoc, skipBlanks_lineBreak]
    rfl
  | cons w more ih =>
    obtain ⟨hw, hmore⟩ := List.forall_mem_cons.mp hitems
    obtain ⟨hwdepth, hmoredepth⟩ := List.forall_mem_cons.mp hdepth
    simp only [renderItems, List.length_append, List.length_cons] at hfuel
    obtain ⟨fuel, rfl⟩ : ∃ more, fuel = more + 1 := Nat.exists_eq_add_of_le' (by omega)
    have hless : 2 * (render layout.deeper w ++ renderItems layout more).length ≤ fuel := by
      rw [List.length_append]
      omega
    have hrest := ih hmore hmoredepth hw hwdepth hless
    have hafter : skipBlanks (renderItems layout (w :: more) ++ rest) = ',' ::
        (layout.deeper.lineBreak ++ (render layout.deeper w ++ (renderItems layout more ++ rest))) := by
      rw [renderItems, List.cons_append, skipBlanks_of_head (by decide)]
      simp
    rw [readItems_more (hv (by omega) hvdepth (endsNumber_renderItems _ _ _)) hafter,
      readItems_congr (skipBlanks_lineBreak layout.deeper _), hrest]
    rfl

theorem readsBack_array {items : List Json} (hitems : ∀ v ∈ items, ReadsBack v) :
    ReadsBack (.array items) := by
  intro layout fuel depth rest hfuel hdepth _
  obtain ⟨fuel, rfl⟩ := exists_fuel hfuel
  rw [readValue, skipBlanks_render]
  rw [Json.depth] at hdepth
  obtain ⟨depth, rfl⟩ : ∃ inner, depth = inner + 1 := Nat.exists_eq_add_of_le' (by omega)
  rw [Nat.add_le_add_iff_right, depthOfItems_le_iff] at hdepth
  cases items with
  | nil => rfl
  | cons v more =>
    obtain ⟨hv, hmore⟩ := List.forall_mem_cons.mp hitems
    obtain ⟨hvdepth, hmoredepth⟩ := List.forall_mem_cons.mp hdepth
    obtain ⟨c, t, hrender, -, hc⟩ := exists_render layout.deeper v
    simp only [render, List.length_append, List.length_cons] at hfuel
    have hinner : 2 * (render layout.deeper v ++ renderItems layout more).length ≤ fuel := by
      rw [List.length_append]
      omega
    have hread := readItems_render rest hmore hmoredepth hv hvdepth hinner
    have hinside : skipBlanks (layout.deeper.lineBreak ++ (render layout.deeper v ++
        (renderItems layout more ++ rest))) = c :: (t ++ (renderItems layout more ++ rest)) := by
      rw [skipBlanks_lineBreak, skipBlanks_render, hrender, List.cons_append]
    rw [hrender, List.cons_append] at hread
    simp only [render, List.cons_append, List.append_assoc, hinside]
    simp [hc, hread]

/-! ## Objects -/

theorem skipBlanks_renderString (name : String) (t : Text) :
    skipBlanks (renderString name ++ t) = '"' :: (name.toList.flatMap escapeChar ++ '"' :: t) := by
  rw [renderString, List.cons_append, skipBlanks_of_head (by decide), List.append_assoc]
  rfl

/-- A colon stands between a name and its value, with blanks at most. -/
theorem exists_colon (layout : Layout) (t : Text) :
    ∃ u, skipBlanks (layout.colon ++ t) = ':' :: u ∧ skipBlanks u = skipBlanks t := by
  cases layout with
  | compact => exact ⟨t, rfl, rfl⟩
  | indented depth => exact ⟨' ' :: t, rfl, rfl⟩

/-- The last field of an object. -/
theorem readFields_last {v : Json} (hv : readValue fuel depth rest = some (v, after))
    (hafter : skipBlanks after = '}' :: behind) (name : String) :
    readFields (fuel + 1) depth (renderString name ++ (layout.colon ++ rest)) =
      some ([(name, v)], behind) := by
  obtain ⟨u, hcolon, hu⟩ := exists_colon layout rest
  simp [readFields, skipBlanks_renderString, readChars_flatMap, hcolon, readValue_congr hu, hv,
    hafter]

/-- A field with others behind it. -/
theorem readFields_more {v : Json} (hv : readValue fuel depth rest = some (v, after))
    (hafter : skipBlanks after = ',' :: behind) (name : String) :
    readFields (fuel + 1) depth (renderString name ++ (layout.colon ++ rest)) =
      (readFields fuel depth behind).map fun (fields, t) => ((name, v) :: fields, t) := by
  obtain ⟨u, hcolon, hu⟩ := exists_colon layout rest
  simp only [readFields, skipBlanks_renderString, readChars_flatMap, hcolon, readValue_congr hu, hv,
    hafter, String.ofList_toList, Option.bind_eq_bind, Option.bind_some, Option.pure_def]
  cases readFields fuel depth behind <;> rfl

theorem readFields_render (rest : Text) {fields : List (String × Json)}
    (hfields : ∀ field ∈ fields, ReadsBack field.2)
    (hdepth : ∀ field ∈ fields, field.2.depth ≤ depth) (name : String) {v : Json} (hv : ReadsBack v)
    (hvdepth : v.depth ≤ depth)
    (hfuel : 2 * (render layout.deeper v ++ renderFields layout fields).length ≤ fuel) :
    readFields fuel depth (renderString name ++ (layout.colon ++ (render layout.deeper v ++
      (renderFields layout fields ++ rest)))) = some ((name, v) :: fields, rest) := by
  induction fields generalizing name v fuel with
  | nil =>
    rw [renderFields, List.length_append, List.length_append, List.length_singleton] at hfuel
    obtain ⟨fuel, rfl⟩ : ∃ more, fuel = more + 1 := Nat.exists_eq_add_of_le' (by omega)
    refine readFields_last (hv (by omega) hvdepth (endsNumber_renderFields _ _ _)) ?_ name
    rw [renderFields, List.append_assoc, skipBlanks_lineBreak]
    rfl
  | cons field more ih =>
    obtain ⟨next, w⟩ := field
    obtain ⟨hw, hmore⟩ := List.forall_mem_cons.mp hfields
    obtain ⟨hwdepth, hmoredepth⟩ := List.forall_mem_cons.mp hdepth
    simp only [renderFields, List.length_append, List.length_cons] at hfuel
    obtain ⟨fuel, rfl⟩ : ∃ more, fuel = more + 1 := Nat.exists_eq_add_of_le' (by omega)
    have hless : 2 * (render layout.deeper w ++ renderFields layout more).length ≤ fuel := by
      rw [List.length_append]
      omega
    have hrest := ih hmore hmoredepth next hw hwdepth hless
    have hafter : skipBlanks (renderFields layout ((next, w) :: more) ++ rest) = ',' ::
        (layout.deeper.lineBreak ++ (renderString next ++ (layout.colon ++ (render layout.deeper w ++
          (renderFields layout more ++ rest))))) := by
      rw [renderFields, List.cons_append, skipBlanks_of_head (by decide)]
      simp
    rw [readFields_more (hv (by omega) hvdepth (endsNumber_renderFields _ _ _)) hafter,
      readFields_congr (skipBlanks_lineBreak layout.deeper _), hrest]
    rfl

theorem readsBack_object {fields : List (String × Json)}
    (hfields : ∀ field ∈ fields, ReadsBack field.2) : ReadsBack (.object fields) := by
  intro layout fuel depth rest hfuel hdepth _
  obtain ⟨fuel, rfl⟩ := exists_fuel hfuel
  rw [readValue, skipBlanks_render]
  rw [Json.depth] at hdepth
  obtain ⟨depth, rfl⟩ : ∃ inner, depth = inner + 1 := Nat.exists_eq_add_of_le' (by omega)
  rw [Nat.add_le_add_iff_right, depthOfFields_le_iff] at hdepth
  cases fields with
  | nil => rfl
  | cons field more =>
    obtain ⟨name, v⟩ := field
    obtain ⟨hv, hmore⟩ := List.forall_mem_cons.mp hfields
    obtain ⟨hvdepth, hmoredepth⟩ := List.forall_mem_cons.mp hdepth
    simp only [render, List.length_append, List.length_cons] at hfuel
    have hinner : 2 * (render layout.deeper v ++ renderFields layout more).length ≤ fuel := by
      rw [List.length_append]
      omega
    have hread := readFields_render rest hmore hmoredepth name hv hvdepth hinner
    obtain ⟨u, hu⟩ : ∃ u, renderString name ++ (layout.colon ++ (render layout.deeper v ++
        (renderFields layout more ++ rest))) = '"' :: u := ⟨_, rfl⟩
    have hinside : skipBlanks (layout.deeper.lineBreak ++ '"' :: u) = '"' :: u := by
      rw [skipBlanks_lineBreak, skipBlanks_of_head (by decide)]
    rw [hu] at hread
    simp only [render, List.cons_append, List.append_assoc, hu, hinside]
    simp [hread]

/-! ## The round trip -/

theorem readsBack (v : Json) : ReadsBack v := by
  induction v using nested_induction with
  | null =>
    intro layout fuel depth rest hfuel _ _
    obtain ⟨fuel, rfl⟩ := exists_fuel hfuel
    rfl
  | bool b =>
    intro layout fuel depth rest hfuel _ _
    obtain ⟨fuel, rfl⟩ := exists_fuel hfuel
    cases b <;> rfl
  | number n => exact readsBack_number n
  | string s => exact readsBack_string s
  | array items ih => exact readsBack_array ih
  | object fields ih => exact readsBack_object ih

/-- The text of a value spells the value again, in every layout, unless the value is nested too
deeply to be read. -/
theorem read_render (layout : Layout) {v : Json} (h : v.depth ≤ maxDepth) :
    read (render layout v) = some v := by
  have hread : readValue (2 * (render layout v).length + 2) maxDepth (render layout v ++ []) =
      some (v, []) := readsBack v (by omega) h (by simp [EndsNumber])
  rw [List.append_nil] at hread
  simp only [read, hread, skipBlanks, Option.bind_eq_bind, Option.bind_some, List.dropWhile_nil,
    List.isEmpty_nil, ↓reduceIte]

end DiagramLint.Json
