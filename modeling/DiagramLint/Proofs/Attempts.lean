-- Attempts one after another. An attempt that is put together of others comes
-- to a result exactly when each of them does, one handing its result on.
import Mathlib.Data.List.Forall2

namespace DiagramLint

variable {ε α β : Type}

theorem exists_eq_ok_of_isOk {attempt : Except ε α} (h : attempt.isOk = true) :
    ∃ a, attempt = .ok a := by
  cases attempt with
  | error e => cases h
  | ok a => exact ⟨a, rfl⟩

theorem bind_eq_ok_iff {attempt : Except ε α} {next : α → Except ε β} {b : β} :
    (attempt >>= next) = .ok b ↔ ∃ a, attempt = .ok a ∧ next a = .ok b := by
  cases attempt with
  | error e => simp [bind, Except.bind]
  | ok a => simp [bind, Except.bind]

theorem map_eq_ok_iff {f : α → β} {attempt : Except ε α} {b : β} :
    attempt.map f = .ok b ↔ ∃ a, attempt = .ok a ∧ f a = b := by
  cases attempt with
  | error e => simp [Except.map]
  | ok a => simp [Except.map]

/-- What is done with a result does not decide whether there is one. -/
theorem exists_map_eq_ok_iff {f : α → β} {attempt : Except ε α} :
    (∃ b, attempt.map f = .ok b) ↔ ∃ a, attempt = .ok a := by
  simp [map_eq_ok_iff]

instance decidableExistsOk (attempt : Except ε α) (p : α → Prop) [DecidablePred p] :
    Decidable (∃ a, attempt = .ok a ∧ p a) :=
  match attempt with
  | .error _ => .isFalse fun ⟨_, h, _⟩ => nomatch h
  | .ok a => decidable_of_iff (p a) (by simp)

instance decidableExistsOkSome (attempt : Except ε (Option α)) (p : α → Prop) [DecidablePred p] :
    Decidable (∃ a, attempt = .ok (some a) ∧ p a) :=
  match attempt with
  | .error _ | .ok none => .isFalse fun ⟨_, h, _⟩ => nomatch h
  | .ok (some a) => decidable_of_iff (p a) (by simp)

theorem mapError_eq_ok_iff {ε' : Type} {f : ε → ε'} {attempt : Except ε α} {a : α} :
    attempt.mapError f = .ok a ↔ attempt = .ok a := by
  cases attempt <;> simp [Except.mapError]

theorem mapM_eq_ok_iff {f : α → Except ε β} {xs : List α} {ys : List β} :
    xs.mapM f = .ok ys ↔ List.Forall₂ (fun x y => f x = .ok y) xs ys := by
  induction xs generalizing ys with
  | nil =>
    rw [List.forall₂_nil_left_iff]
    constructor
    · intro h
      cases h
      rfl
    · rintro rfl
      rfl
  | cons x rest ih =>
    rw [List.mapM_cons, bind_eq_ok_iff, List.forall₂_cons_left_iff]
    constructor
    · rintro ⟨y, hy, h⟩
      obtain ⟨others, hothers, h⟩ := bind_eq_ok_iff.mp h
      cases h
      exact ⟨y, others, hy, ih.mp hothers, rfl⟩
    · rintro ⟨y, others, hy, hothers, rfl⟩
      exact ⟨y, hy, bind_eq_ok_iff.mpr ⟨others, ih.mpr hothers, rfl⟩⟩

theorem mapM_eq_ok_of_imp {f g : α → Except ε β} (h : ∀ x y, f x = .ok y → g x = .ok y)
    {xs : List α} {ys : List β} (hf : xs.mapM f = .ok ys) : xs.mapM g = .ok ys :=
  mapM_eq_ok_iff.mpr ((mapM_eq_ok_iff.mp hf).imp h)

theorem mapM_singleton_eq_ok_iff {f : α → Except ε β} {x : α} {ys : List β} :
    [x].mapM f = .ok ys ↔ ∃ y, f x = .ok y ∧ ys = [y] := by
  rw [mapM_eq_ok_iff]
  simp [List.forall₂_cons_left_iff]

theorem exists_mapM_eq_ok_iff {f : α → Except ε β} {xs : List α} :
    (∃ ys, xs.mapM f = .ok ys) ↔ ∀ x ∈ xs, ∃ y, f x = .ok y := by
  simp only [mapM_eq_ok_iff]
  induction xs with
  | nil => simp
  | cons x rest ih => simp [List.forall₂_cons_left_iff, ← ih]

theorem exists_of_mem_mapM {f : α → Except ε β} {xs : List α} {ys : List β}
    (h : xs.mapM f = .ok ys) {y : β} (hy : y ∈ ys) : ∃ x ∈ xs, f x = .ok y := by
  induction mapM_eq_ok_iff.mp h with
  | nil => cases hy
  | @cons x first rest others hfirst hothers ih =>
    rcases List.mem_cons.mp hy with rfl | hy
    · exact ⟨x, List.mem_cons_self, hfirst⟩
    · obtain ⟨earlier, hm, heq⟩ := ih (mapM_eq_ok_iff.mpr hothers) hy
      exact ⟨earlier, List.mem_cons_of_mem x hm, heq⟩

end DiagramLint
