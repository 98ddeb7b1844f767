import Mathlib.Data.List.Sort

/-!
# Stable sorting and ties

A stable sort by a total preorder returns one list for all arrangements of its input, if and only if
no two items of the input tie (`insertionSort_perm_iff`).
-/

namespace Platform.Lib
open List

section
variable {α : Type} {r : α → α → Prop} [DecidableRel r]

theorem not_swapped {a b : α} {l : List α} (hl : l.Nodup) (hab : [a, b].Sublist l)
    (hba : [b, a].Sublist l) : False := by
  induction l with
  | nil => cases hab
  | cons x l ih =>
    obtain ⟨hx, hl⟩ := nodup_cons.mp hl
    -- the first of a pair that starts at `x` comes again in the other pair
    cases hab with
    | cons _ hab =>
      cases hba with
      | cons _ hba => exact ih hl hab hba
      | cons_cons _ hba => exact hx (hab.subset (mem_cons_of_mem _ mem_cons_self))
    | cons_cons _ hab =>
      cases hba with
      | cons _ hba => exact hx (hba.subset (mem_cons_of_mem _ mem_cons_self))
      | cons_cons _ hba => exact hx (hab.subset mem_cons_self)

variable [Std.Total r] [IsTrans α r]

theorem insertionSort_eq_of_perm {l₁ l₂ : List α} (hpr : l₁.Perm l₂)
    (hts : ∀ a ∈ l₁, ∀ b ∈ l₁, r a b → r b a → a = b) :
    l₁.insertionSort r = l₂.insertionSort r := by
  have hs := (perm_insertionSort r l₁).trans (hpr.trans (perm_insertionSort r l₂).symm)
  refine hs.eq_of_pairwise (fun a b ha hb => ?_) (pairwise_insertionSort r l₁)
    (pairwise_insertionSort r l₂)
  exact hts a ((mem_insertionSort r).mp ha) b (hpr.symm.subset ((mem_insertionSort r).mp hb))

/-- **When the arrangement of the input does not matter.** -/
theorem insertionSort_perm_iff {l : List α} (hl : l.Nodup) :
    (∀ l₁ l₂ : List α, l₁.Perm l → l₂.Perm l → l₁.insertionSort r = l₂.insertionSort r) ↔
      ∀ a ∈ l, ∀ b ∈ l, r a b → r b a → a = b := by
  constructor
  · intro h a ha b hb hab hba
    by_contra hne
    -- the two arrangements that begin with the tie
    obtain ⟨rest, hr⟩ : ∃ rest, l.Perm (a :: b :: rest) := by
      obtain ⟨s, t, rfl⟩ := append_of_mem ha
      have hst : (s ++ a :: t).Perm (a :: (s ++ t)) := perm_middle
      have hbs : b ∈ s ++ t := (mem_cons.mp (hst.subset hb)).resolve_left (Ne.symm hne)
      obtain ⟨u, v, huv⟩ := append_of_mem hbs
      refine ⟨u ++ v, hst.trans (List.Perm.cons a ?_)⟩
      rw [huv]
      exact perm_middle
    have hsw : (b :: a :: rest).Perm l := (List.Perm.swap a b rest).trans hr.symm
    have hfr : [a, b].Sublist ((a :: b :: rest).insertionSort r) :=
      pair_sublist_insertionSort hab (((nil_sublist rest).cons_cons b).cons_cons a)
    have hsc : [b, a].Sublist ((b :: a :: rest).insertionSort r) :=
      pair_sublist_insertionSort hba (((nil_sublist rest).cons_cons a).cons_cons b)
    rw [h _ _ hr.symm hsw] at hfr
    refine not_swapped ?_ hfr hsc
    exact (perm_insertionSort r _).nodup_iff.mpr (hsw.nodup_iff.mpr hl)
  · intro h l₁ l₂ h₁ h₂
    exact insertionSort_eq_of_perm (h₁.trans h₂.symm) fun a ha b hb =>
      h a (h₁.subset ha) b (h₁.subset hb)

end

end Platform.Lib
