import Mathlib.Data.Finset.Powerset

/-!
# Large subsets of a finite set

How much two subsets with at least `q` members each must share: the counting fact under every quorum
argument.  The last section counts the distinct names that the entries of a list carry.
-/

namespace Platform.Lib
open Finset

variable {α : Type*} [DecidableEq α]

theorem lt_card_inter {U A B : Finset α} {f : ℕ} (hA : A ⊆ U) (hB : B ⊆ U)
    (h : U.card + f < A.card + B.card) : f < (A ∩ B).card := by
  have hun : (A ∪ B).card ≤ U.card := card_le_card (union_subset hA hB)
  have hsm := card_union_add_card_inter A B
  omega

theorem exists_card_inter_le (U : Finset α) (q : ℕ) (hq : q ≤ U.card) :
    ∃ A B, A ⊆ U ∧ B ⊆ U ∧ A.card = q ∧ B.card = q ∧ (A ∩ B).card ≤ 2 * q - U.card := by
  obtain ⟨A, hAU, hA⟩ := exists_subset_card_eq hq
  have hr : (U \ A).card = U.card - q := by rw [card_sdiff_of_subset hAU, hA]
  by_cases hbg : U.card - q ≤ q
  · -- the complement of `A` is filled up to `q` members with members of `A`
    obtain ⟨B, hB1, hB2, hB⟩ :=
      exists_subsuperset_card_eq (sdiff_subset) (by omega : (U \ A).card ≤ q) hq
    refine ⟨A, B, hAU, hB2, hA, hB, ?_⟩
    have hun : A ∪ B = U := by
      apply Finset.Subset.antisymm (union_subset hAU hB2)
      intro x hx
      by_cases hxA : x ∈ A
      · exact mem_union_left _ hxA
      · exact mem_union_right _ (hB1 (mem_sdiff.mpr ⟨hx, hxA⟩))
    have hsm := card_union_add_card_inter A B
    rw [hun] at hsm
    omega
  · -- there is room for a second subset outside `A`
    obtain ⟨B, hBU, hB⟩ := exists_subset_card_eq (s := U \ A) (n := q) (by omega)
    refine ⟨A, B, hAU, hBU.trans sdiff_subset, hA, hB, ?_⟩
    have hds : A ∩ B = ∅ := by
      apply eq_empty_of_forall_notMem
      intro x hx
      obtain ⟨h1, h2⟩ := mem_inter.mp hx
      exact (mem_sdiff.mp (hBU h2)).2 h1
    rw [hds]
    exact Nat.zero_le _

/-- **Exactly when do large subsets meet in more than `f` members?** -/
theorem large_subsets_meet_iff (U : Finset α) (q f : ℕ) (hq : q ≤ U.card) :
    (∀ A B, A ⊆ U → B ⊆ U → q ≤ A.card → q ≤ B.card → f < (A ∩ B).card) ↔ U.card + f < 2 * q := by
  constructor
  · intro h
    obtain ⟨A, B, hA, hB, hAq, hBq, hle⟩ := exists_card_inter_le U q hq
    have hlt := h A B hA hB hAq.ge hBq.ge
    omega
  · intro h A B hA hB hAq hBq
    exact lt_card_inter hA hB (by omega)

/-! ## names carried by a list -/

section
variable {β : Type*}

/-- the names that the entries of `l` with property `P` carry, each counted once -/
def namesOf (f : β → α) (P : β → Bool) (l : List β) : Finset α := ((l.filter P).map f).toFinset

theorem mem_namesOf (f : β → α) (P : β → Bool) (l : List β) (k : α) :
    k ∈ namesOf f P l ↔ ∃ x ∈ l, f x = k ∧ P x = true := by
  rw [namesOf, List.mem_toFinset, List.mem_map]
  constructor
  · rintro ⟨x, hx, hk⟩
    obtain ⟨hl, hP⟩ := List.mem_filter.mp hx
    exact ⟨x, hl, hk, hP⟩
  · rintro ⟨x, hl, hk, hP⟩
    exact ⟨x, List.mem_filter.mpr ⟨hl, hP⟩, hk⟩

/-- **A list names `q` members with property `P` exactly when it carries that many names.** -/
theorem exists_named_iff (f : β → α) (P : β → Bool) (l : List β) (q : ℕ) :
    (∃ S : Finset α, q ≤ S.card ∧ ∀ k ∈ S, ∃ x ∈ l, f x = k ∧ P x = true) ↔
      q ≤ (namesOf f P l).card := by
  constructor
  · rintro ⟨S, hq, hS⟩
    have hsb : S ⊆ namesOf f P l := by
      intro k hk
      exact (mem_namesOf f P l k).mpr (hS k hk)
    exact hq.trans (card_le_card hsb)
  · intro hq
    exact ⟨namesOf f P l, hq, fun k hk => (mem_namesOf f P l k).mp hk⟩

end

end Platform.Lib
