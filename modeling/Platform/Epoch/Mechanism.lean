import Mathlib.Algebra.Order.BigOperators.Group.List
import Platform.Epoch.Commitment

/-!
# Mechanism weights (`crates/epoch/src/mechanism_weights.rs`)

In exact arithmetic.  Every share is rounded on its own, and what is left goes to the uid 0.
-/

namespace Platform.Epoch
open Platform.Core Lib List

/-- `x.round() as u16`; a negative number becomes zero -/
def roundU16 (x : ℚ) : UInt16 := F64.toU16 (x + 1 / 2)

/-- what the loop pushes: uids that are not 0, with a weight that is not 0 -/
def minerWeights (assignments : List (WeightAssignment ℚ)) (emissionWeight : ℚ)
    (hotkeyToUid : HashMap String UInt16) : List (UInt16 × UInt16) :=
  let total := (assignments.map WeightAssignment.weight).sum
  assignments.filterMap fun a => do
    let uid ← hotkeyToUid.lookup a.hotkey
    let scaled := roundU16 (a.weight / total * emissionWeight * 65535)
    if uid ≠ 0 ∧ 0 < scaled then some (uid, scaled) else none

def convertToBittensorFormat (assignments : List (WeightAssignment ℚ)) (emissionWeight : ℚ)
    (hotkeyToUid : HashMap String UInt16) : List UInt16 × List UInt16 :=
  if assignments.isEmpty ∨ emissionWeight ≤ 0 then ([0], [65535])
  else if (assignments.map WeightAssignment.weight).sum ≤ 0 then ([0], [65535])
  else
    let miners := minerWeights assignments emissionWeight hotkeyToUid
    let used := (miners.map fun p => p.2.toNat).sum
    -- `used_weight as u16` keeps the low 16 bits
    let burn := 65535 - UInt16.ofNat used
    (if 0 < burn then (0, burn) :: miners else miners).unzip

/-- the weights of the uids for which `p` holds -/
def received (p : UInt16 → Bool) (r : List UInt16 × List UInt16) : Nat :=
  (((r.1.zip r.2).filter fun x => p x.1).map fun x => x.2.toNat).sum

/-- Each uid comes once, the weights use up the whole, and the uid 0 has what the others leave. -/
@[mk_iff]
structure UsesUp (r : List UInt16 × List UInt16) : Prop where
  nodup : r.1.Nodup
  total : (r.2.map UInt16.toNat).sum = 65535
  burn : (received (· == 0) r : ℤ) = 65535 - received (· != 0) r

theorem roundU16_of_nonpos {x : ℚ} (hx : x ≤ 0) : roundU16 x = 0 := by
  have h : ⌊x + 1 / 2⌋ < 1 := Int.floor_lt.mpr (by push_cast; linarith)
  show UInt16.ofNat (min ⌊x + 1 / 2⌋.toNat 65535) = 0
  rw [Int.toNat_of_nonpos (by omega)]
  rfl

section
variable {asg : List (WeightAssignment ℚ)} {ew : ℚ}
  {ho : HashMap String UInt16}

theorem mem_minerWeights {p : UInt16 × UInt16}
    (h : p ∈ minerWeights asg ew ho) : p.1 ≠ 0 ∧ 0 < p.2 := by
  obtain ⟨a, -, h⟩ := mem_filterMap.mp h
  obtain ⟨uid, -, h⟩ := Option.bind_eq_some_iff.mp h
  obtain ⟨hp, h⟩ := Option.ite_none_right_eq_some.mp h
  cases h
  exact hp

theorem minerWeights_eq_nil (h : ∀ a ∈ asg,
      a.weight / (asg.map WeightAssignment.weight).sum * ew ≤ 0) :
    minerWeights asg ew ho = [] := by
  refine filterMap_eq_nil_iff.mpr fun a ha => ?_
  rw [roundU16_of_nonpos (by linarith [h a ha])]
  cases ho.lookup a.hotkey with
  | none => rfl
  | some uid => exact if_neg fun h => absurd h.2 (by decide)

theorem usesUp_unzip_iff {miners : List (UInt16 × UInt16)} {burn : UInt16} {used : Nat}
    (hm : ∀ p ∈ miners, p.1 ≠ 0) (hu : (miners.map fun p => p.2.toNat).sum = used)
    (hbr : burn.toNat = 65535 - used % 65536) :
    UsesUp (if 0 < burn then (0, burn) :: miners else miners).unzip ↔
      (miners.map Prod.fst).Nodup ∧ used ≤ 65535 := by
  have h0 : miners.filter (fun p => p.1 == 0) = [] :=
    filter_eq_nil_iff.mpr fun p hp => by simpa using hm p hp
  have h1 : miners.filter (fun p => p.1 != 0) = miners :=
    filter_eq_self.mpr fun p hp => by simpa using hm p hp
  have hno : (0 : UInt16) ∉ miners.map Prod.fst := by
    intro h
    obtain ⟨p, hp, h⟩ := mem_map.mp h
    exact hm p hp h
  rw [usesUp_iff, received, received, zip_unzip, unzip_fst, unzip_snd, map_map]
  change _ ∧ (map (fun p : UInt16 × UInt16 => p.2.toNat) _).sum = 65535 ∧ _ ↔ _
  -- with an entry for the uid 0 or without one, it has `burn` and the others have `used`
  by_cases hb : 0 < burn
  · rw [if_pos hb]
    simp only [map_cons, nodup_cons, hno, not_false_eq_true, true_and, sum_cons, hu,
      filter_cons, h0, h1, BEq.rfl, if_true, bne_self_eq_false, Bool.false_eq_true, if_false,
      map_nil, sum_nil]
    exact and_congr_right fun _ => by omega
  · have hz : burn.toNat = 0 := by
      rw [UInt16.lt_iff_toNat_lt] at hb
      exact Nat.eq_zero_of_not_pos hb
    rw [if_neg hb, h0, h1, hu, map_nil, sum_nil]
    exact and_congr_right fun _ => by omega

end

/-- **Mechanism weights use up the whole** if and only if no uid comes twice among the miners and
their rounded shares do not exceed the whole. -/
theorem mechanism_weights_iff (assignments : List (WeightAssignment ℚ)) (emissionWeight : ℚ)
    (hotkeyToUid : HashMap String UInt16) (hw : ∀ a ∈ assignments, 0 ≤ a.weight) :
    UsesUp (convertToBittensorFormat assignments emissionWeight hotkeyToUid) ↔
      ((minerWeights assignments emissionWeight hotkeyToUid).map Prod.fst).Nodup ∧
      ((minerWeights assignments emissionWeight hotkeyToUid).map fun p => p.2.toNat).sum ≤
        65535 := by
  have hal : UsesUp ([0], [65535]) := ⟨by decide, by decide, by decide⟩
  have htt : 0 ≤ (assignments.map WeightAssignment.weight).sum :=
    sum_nonneg fun x hx => by
      obtain ⟨a, ha, rfl⟩ := mem_map.mp hx
      exact hw a ha
  unfold convertToBittensorFormat
  split
  · next h =>
    rw [minerWeights_eq_nil]
    · exact iff_of_true hal ⟨nodup_nil, Nat.zero_le _⟩
    · intro a ha
      rcases h with h | h
      · rw [isEmpty_iff.mp h] at ha
        cases ha
      · exact mul_nonpos_of_nonneg_of_nonpos (div_nonneg (hw a ha) htt) h
  · split
    · next h =>
      rw [minerWeights_eq_nil]
      · exact iff_of_true hal ⟨nodup_nil, Nat.zero_le _⟩
      · intro a ha
        rw [le_antisymm h htt, div_zero, zero_mul]
    · refine usesUp_unzip_iff (fun p hp => (mem_minerWeights hp).1) rfl ?_
      rw [UInt16.toNat_sub_of_le _ _ (UInt16.le_iff_toNat_le.mpr ?_), UInt16.toNat_ofNat']
      · rfl
      · exact Nat.lt_succ_iff.mp (UInt16.toNat_lt _)

def twoUids : HashMap String UInt16 := HashMap.collect [("a", 1), ("b", 2)]

theorem mechanism_weights_thirds :
    UsesUp (convertToBittensorFormat [⟨"a", 2⟩, ⟨"b", 1⟩] 1 twoUids) :=
  (mechanism_weights_iff [⟨"a", 2⟩, ⟨"b", 1⟩] 1 twoUids (by decide +kernel)).mpr
    ⟨by decide +kernel, by decide +kernel⟩

/-- Two halves are rounded up, which overflows the counter and gives the whole to the uid 0 too. -/
theorem mechanism_weights_halves :
    convertToBittensorFormat [⟨"a", 1⟩, ⟨"b", 1⟩] 1 twoUids = ([0, 1, 2], [65535, 32768, 32768]) ∧
    ¬ UsesUp (convertToBittensorFormat [⟨"a", 1⟩, ⟨"b", 1⟩] 1 twoUids) := by
  have h : convertToBittensorFormat [⟨"a", 1⟩, ⟨"b", 1⟩] 1 twoUids =
    ([0, 1, 2], [65535, 32768, 32768]) := by decide +kernel
  refine ⟨h, fun hu => ?_⟩
  have ht := hu.total
  rw [h] at ht
  exact absurd ht (by decide)

end Platform.Epoch
