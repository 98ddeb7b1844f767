import Mathlib.Data.List.Perm.Basic
import Mathlib.Order.Lattice

/-!
# The largest item of a list

`maxBy` goes through a list and keeps the best item so far; of two items that neither beats, it
keeps the later one.  What it returns is stated for comparisons by a key.

* `maxBy_spec`       the result is in the list, and no key is larger than its own;
* `maxBy_of_unique`  an item with a larger key than all others is the result.
-/

namespace Platform.Lib
open List

section
variable {α : Type}

/-- one round of the loop -/
def better (beats : α → α → Bool) (best y : α) : α := if beats best y then best else y

/-- the loop of `Iterator::max_by` -/
def maxBy (beats : α → α → Bool) : List α → Option α
  | [] => none
  | x :: xs => some (xs.foldl (better beats) x)

variable {κ : Type} [LinearOrder κ] {key : α → κ} {beats : α → α → Bool}

def maxByKey (key : α → κ) : List α → Option α := maxBy fun best y => decide (key y < key best)

variable (hbt : ∀ a b, beats a b = true ↔ key b < key a)

section
include hbt

theorem foldl_better (xs : List α) (x : α) :
    xs.foldl (better beats) x ∈ x :: xs ∧
      ∀ y ∈ x :: xs, key y ≤ key (xs.foldl (better beats) x) := by
  induction xs generalizing x with
  | nil =>
    refine ⟨mem_cons_self, fun y hy => ?_⟩
    rw [mem_singleton.mp hy]
    exact le_refl _
  | cons z xs ih =>
    obtain ⟨hmm, hm⟩ := ih (better beats x z)
    -- the better one of `x` and `z` is one of them, and its key is at least as large as both
    have hr : (better beats x z = x ∨ better beats x z = z) ∧
        key x ≤ key (better beats x z) ∧ key z ≤ key (better beats x z) := by
      unfold better
      by_cases hb : beats x z = true
      · rw [if_pos hb]
        exact ⟨.inl rfl, le_refl _, ((hbt x z).mp hb).le⟩
      · rw [if_neg hb]
        exact ⟨.inr rfl, not_lt.mp fun h => hb ((hbt x z).mpr h), le_refl _⟩
    have hbs := hm _ mem_cons_self
    rw [foldl_cons]
    constructor
    · rcases mem_cons.mp hmm with heq | hin
      · rw [heq]
        rcases hr.1 with h | h
        · rw [h]
          exact mem_cons_self
        · rw [h]
          exact mem_cons_of_mem x mem_cons_self
      · exact mem_cons_of_mem x (mem_cons_of_mem z hin)
    · intro y hy
      rcases mem_cons.mp hy with rfl | hy
      · exact hr.2.1.trans hbs
      · rcases mem_cons.mp hy with rfl | hy
        · exact hr.2.2.trans hbs
        · exact hm y (mem_cons_of_mem _ hy)

theorem maxBy_spec {l : List α} (hl : l ≠ []) :
    ∃ m ∈ l, maxBy beats l = some m ∧ ∀ y ∈ l, key y ≤ key m := by
  obtain ⟨x, xs, rfl⟩ := exists_cons_of_ne_nil hl
  obtain ⟨hmm, hm⟩ := foldl_better hbt xs x
  exact ⟨_, hmm, rfl, hm⟩

theorem maxBy_of_unique {l : List α} {m : α} (hm : m ∈ l)
    (hoh : ∀ y ∈ l, y ≠ m → key y < key m) : maxBy beats l = some m := by
  obtain ⟨m', hmm, hmx, hle⟩ := maxBy_spec hbt (ne_nil_of_mem hm)
  by_cases heq : m' = m
  · rw [hmx, heq]
  · exact absurd (hoh m' hmm heq) (not_lt.mpr (hle m hm))

theorem maxBy_append_singleton {l : List α} {m : α}
    (hm : ∀ y ∈ l, key y ≤ key m) : maxBy beats (l ++ [m]) = some m := by
  cases l with
  | nil => rfl
  | cons x xs =>
    show some ((xs ++ [m]).foldl (better beats) x) = some m
    rw [foldl_append, foldl_cons, foldl_nil, better, if_neg]
    rw [hbt]
    exact not_lt.mpr (hm _ (foldl_better hbt xs x).1)

/-- **When the order of the items does not matter.** -/
theorem maxBy_perm_iff (l : List α) :
    (∀ l', l'.Perm l → maxBy beats l' = maxBy beats l) ↔
      ∀ a ∈ l, ∀ b ∈ l, (∀ y ∈ l, key y ≤ key a) → (∀ y ∈ l, key y ≤ key b) → a = b := by
  constructor
  · intro h a ha b hb ham hbm
    -- each of the two is found when it is moved to the end
    have hls : ∀ m ∈ l, (∀ y ∈ l, key y ≤ key m) → maxBy beats l = some m := by
      intro m hm hmx
      obtain ⟨s, t, rfl⟩ := append_of_mem hm
      have hpr : (s ++ t ++ [m]).Perm (s ++ m :: t) :=
        perm_append_singleton m (s ++ t) |>.trans perm_middle.symm
      rw [← h _ hpr]
      refine maxBy_append_singleton hbt fun y hy => hmx y (hpr.subset ?_)
      exact mem_append_left _ hy
    exact Option.some_inj.mp ((hls a ha ham).symm.trans (hls b hb hbm))
  · intro h l' hpr
    by_cases hl : l = []
    · subst hl
      rw [hpr.eq_nil]
    · have hl' : l' ≠ [] := fun hnl => hl (hnl ▸ hpr).symm.eq_nil
      obtain ⟨m, hm, hmx, hle⟩ := maxBy_spec hbt hl
      obtain ⟨m', hm', hmx', hle'⟩ := maxBy_spec hbt hl'
      rw [hmx, hmx', h m' (hpr.subset hm') m hm (fun y hy => hle' y (hpr.symm.subset hy)) hle]

end

end

end Platform.Lib
