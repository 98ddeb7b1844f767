import Mathlib.Algebra.BigOperators.Group.List.Basic
import Mathlib.Algebra.Ring.Nat

/-!
# What a loop adds up

A loop over a list is read through a measure of its accumulator to which every round adds a part of
its own: at the end the measure has grown by the sum of the parts, in whatever order they came.
-/

namespace Platform.Lib

variable {α β M : Type*} {f : β → α → β}

theorem foldl_sum [AddCommMonoid M] {μ : β → M} {g : α → M} (h : ∀ b a, μ (f b a) = μ b + g a)
    (l : List α) (b : β) : μ (l.foldl f b) = μ b + (l.map g).sum := by
  induction l generalizing b with
  | nil => simp
  | cons a l ih => simp [ih, h, add_assoc]

/-- A counter of 64 bits that the parts do not overflow. -/
theorem foldl_toNat {μ : β → UInt64} {g : α → UInt64} (h : ∀ b a, μ (f b a) = μ b + g a)
    (l : List α) (b : β) (hlt : (μ b).toNat + (l.map fun a => (g a).toNat).sum < 2 ^ 64) :
    (μ (l.foldl f b)).toNat = (μ b).toNat + (l.map fun a => (g a).toNat).sum := by
  induction l generalizing b with
  | nil => simp
  | cons a l ih =>
    rw [List.map_cons, List.sum_cons] at hlt ⊢
    have hb : (μ (f b a)).toNat = (μ b).toNat + (g a).toNat := by
      rw [h, UInt64.toNat_add]
      exact Nat.mod_eq_of_lt (by omega)
    rw [List.foldl_cons, ih _ (by omega), hb, Nat.add_assoc]

end Platform.Lib
