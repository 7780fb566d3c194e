-- How configurations merge. Each field has its own rule, and every rule is
-- associative, so the whole merge is; the defaults merged into themselves
-- are the defaults.
import Mathlib.Data.List.Basic
import DiagramLint.Config.Basic

namespace DiagramLint

/-! ## Named values -/

namespace Named

variable {α : Type}

theorem any_name_eq (a : Named α) (name : String) :
    a.any (·.1 == name) = (a.lookup name).isSome := by
  induction a with
  | nil => rfl
  | cons entry rest ih =>
    obtain ⟨first, value⟩ := entry
    rw [List.any_cons, ih, List.lookup_cons, BEq.comm]
    cases name == first <;> rfl

theorem lookup_filter_names (keep : String → Bool) (a : Named α) (name : String) :
    (a.filter fun entry => keep entry.1).lookup name =
      if keep name then a.lookup name else none := by
  induction a with
  | nil => simp
  | cons entry rest ih =>
    obtain ⟨first, value⟩ := entry
    rw [List.filter_cons, List.lookup_cons]
    cases h : name == first with
    | true =>
      rw [eq_of_beq h] at ih ⊢
      cases hkeep : keep first with
      | true => simp
      | false => rw [if_neg Bool.false_ne_true, ih, hkeep]; rfl
    | false =>
      cases hkeep : keep first
      · simpa using ih
      · simp [List.lookup_cons, h, ih]

/-- A name stands for what `b` says, and for what `a` says where `b` says nothing. -/
theorem lookup_override (a b : Named α) (name : String) :
    (a.override b).lookup name = (b.lookup name).or (a.lookup name) := by
  unfold override
  rw [List.lookup_append, lookup_filter_names fun other => !b.any (·.1 == other), any_name_eq]
  cases b.lookup name <;> simp

theorem override_assoc (a b c : Named α) :
    (a.override b).override c = a.override (b.override c) := by
  have hnamed : ∀ entry : String × α, (!(b.override c).any (·.1 == entry.1)) =
      (!c.any (·.1 == entry.1) && !b.any (·.1 == entry.1)) := by
    intro entry
    rw [any_name_eq, any_name_eq, any_name_eq, lookup_override]
    cases c.lookup entry.1 <;> simp
  calc (a.override b).override c
      = a.filter (fun entry => !c.any (·.1 == entry.1) && !b.any (·.1 == entry.1)) ++
          b.override c := by
        simp only [override, List.filter_append, List.filter_filter, List.append_assoc]
    _ = a.override (b.override c) := by
        rw [← funext hnamed]
        rfl

/-- Of several entries with a name, the last one counts. -/
theorem lookup_ofEntries (entries : List (String × α)) (name : String) :
    (ofEntries entries).lookup name = entries.reverse.lookup name := by
  have hfrom : ∀ named : Named α, (entries.foldl (fun named entry => named.override [entry])
      named).lookup name = (entries.reverse.lookup name).or (named.lookup name) := by
    induction entries with
    | nil => exact fun named => rfl
    | cons entry rest ih =>
      intro named
      rw [List.foldl_cons, ih, lookup_override, List.reverse_cons, List.lookup_append,
        Option.or_assoc]
  exact (hfrom []).trans Option.or_none

end Named

/-! ## Choices -/

/-- Where a later choice counts unless it is the usual one, it does not matter which two of three
choices are made first. -/
theorem unless_usual_assoc {α : Type} [DecidableEq α] (usual a b c : α) :
    (if c = usual then if b = usual then a else b else c) =
      if (if c = usual then b else c) = usual then a else if c = usual then b else c := by
  by_cases hc : c = usual
  · simp only [hc, if_true]
  · simp only [hc, if_false]

namespace Config

/-! ## Lists of patterns -/

theorem mem_union (a b : List String) (s : String) : s ∈ union a b ↔ s ∈ a ∨ s ∈ b := by
  unfold union
  induction b generalizing a with
  | nil => simp
  | cons new rest ih =>
    rw [List.foldl_cons, ih]
    split
    · rename_i hm
      grind
    · grind

theorem union_append (a b c : List String) : union a (b ++ c) = union (union a b) c :=
  List.foldl_append

theorem union_singleton (a : List String) (s : String) :
    union a [s] = if a.contains s then a else a ++ [s] := rfl

theorem union_of_subset {a b : List String} (h : ∀ s ∈ b, s ∈ a) : union a b = a := by
  induction b with
  | nil => rfl
  | cons s b ih =>
    have hs : a.contains s = true := by simpa using h s List.mem_cons_self
    rw [← List.singleton_append, union_append, union_singleton, if_pos hs]
    exact ih fun s hm => h s (List.mem_cons_of_mem _ hm)

/-- What is new to `a` and `b` together is new to `b`, and what is new to `b` only is passed over
when it comes to `a`. -/
theorem union_assoc (a b c : List String) : union (union a b) c = union a (union b c) := by
  induction c generalizing b with
  | nil => rfl
  | cons s c ih =>
    rw [← List.singleton_append, union_append, union_append, ← ih]
    congr 1
    by_cases hs : s ∈ b
    · rw [union_of_subset (a := b) (by simpa using hs), union_of_subset]
      simpa using (mem_union a b s).mpr (.inr hs)
    · rw [union_singleton b, if_neg (by simpa using hs), union_append]

/-! ## Configurations -/

theorem merge_assoc (a b c : Config) : (a.merge b).merge c = a.merge (b.merge c) := by
  simp only [merge, Config.mk.injEq, true_and]
  refine ⟨unless_usual_assoc 0 _ _ _, Bool.or_assoc _ _ _, Named.override_assoc _ _ _,
    unless_usual_assoc Level.safe _ _ _, unless_usual_assoc OutputFormat.text _ _ _,
    unless_usual_assoc ColorMode.auto _ _ _,
    union_assoc _ _ _, union_assoc _ _ _, List.append_assoc _ _ _, List.append_assoc _ _ _,
    Named.override_assoc _ _ _⟩

theorem default_merge_default : merge {} {} = {} := by
  simp only [merge, Config.mk.injEq]
  decide

/-- Merging several configurations one after the other into one that two were merged into. -/
theorem merge_foldl (a b : Config) (others : List Config) :
    a.merge (others.foldl merge b) = others.foldl merge (a.merge b) := by
  induction others generalizing b with
  | nil => rfl
  | cons other others ih => rw [List.foldl_cons, ih, ← merge_assoc, List.foldl_cons]

end Config

end DiagramLint
