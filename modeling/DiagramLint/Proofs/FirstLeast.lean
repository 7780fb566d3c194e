-- The first of the least: what a search from left to right ends with when it
-- keeps the best so far and lets a tie go to the earlier.
import Mathlib.Data.List.Basic

namespace DiagramLint

/-- An item measures less than all before it, and no more than those behind it. -/
def FirstLeast {α : Type} (measure : α → Nat) (items : List α) (best : α) : Prop :=
  ∃ before behind, items = before ++ best :: behind ∧
    (∀ item ∈ before, measure best < measure item) ∧
    ∀ item ∈ behind, measure best ≤ measure item

namespace FirstLeast

variable {α : Type} {measure : α → Nat} {items : List α} {best next : α}

theorem mem (h : FirstLeast measure items best) : best ∈ items := by
  obtain ⟨before, behind, rfl, -⟩ := h
  simp

theorem le (h : FirstLeast measure items best) {item : α} (hm : item ∈ items) :
    measure best ≤ measure item := by
  obtain ⟨before, behind, rfl, hbefore, hbehind⟩ := h
  rcases List.mem_append.mp hm with hm | hm
  · exact Nat.le_of_lt (hbefore item hm)
  · rcases List.mem_cons.mp hm with rfl | hm
    · exact Nat.le_refl _
    · exact hbehind item hm

theorem singleton (measure : α → Nat) (item : α) : FirstLeast measure [item] item :=
  ⟨[], [], rfl, by simp, by simp⟩

/-- One more item that measures no less changes nothing. -/
theorem snoc_of_le (h : FirstLeast measure items best) (hle : measure best ≤ measure next) :
    FirstLeast measure (items ++ [next]) best := by
  obtain ⟨before, behind, rfl, hbefore, hbehind⟩ := h
  refine ⟨before, behind ++ [next], by simp, hbefore, ?_⟩
  intro item hm
  rcases List.mem_append.mp hm with hm | hm
  · exact hbehind item hm
  · rw [List.mem_singleton.mp hm]
    exact hle

/-- One more item that measures less than all others takes the place. -/
theorem snoc_of_lt (h : ∀ item ∈ items, measure next < measure item) :
    FirstLeast measure (items ++ [next]) next :=
  ⟨items, [], rfl, h, by simp⟩

/-- The first of the least is the first item that measures no more than it does. -/
theorem find?_eq (h : FirstLeast measure items best) :
    items.find? (fun item => measure item ≤ measure best) = some best := by
  obtain ⟨before, behind, hsplit, hbefore, -⟩ := h
  apply List.find?_eq_some_iff_append.mpr
  refine ⟨by simp, before, behind, hsplit, ?_⟩
  intro item hm
  simpa using hbefore item hm

theorem unique {other : α} (h : FirstLeast measure items best)
    (h' : FirstLeast measure items other) : best = other := by
  have hfirst := h.find?_eq
  rw [Nat.le_antisymm (h.le h'.mem) (h'.le h.mem), h'.find?_eq] at hfirst
  exact (Option.some.inj hfirst).symm

end FirstLeast

end DiagramLint
