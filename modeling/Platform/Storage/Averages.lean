import Mathlib.Algebra.BigOperators.Ring.Finset
import Mathlib.Algebra.Order.BigOperators.Group.List
import Platform.Lib.Sums
import Platform.Storage.WeightAggregation

/-!
# What an aggregated weight can be

In exact arithmetic: the stake-weighted average stays between the weights of the votes, and the
median is taken over the votes that name the hotkey.
-/

namespace Platform.Storage
open Platform.Core Lib Chain List

/-! ## the stake-weighted average -/

/-- the weight that a vote gives a hotkey, zero if it does not name it -/
def given (v : ValidatorWeightVote ℚ) (hotkey : String) : ℚ := (v.getWeight hotkey).getD 0

def FairVote (v : ValidatorWeightVote ℚ) : Prop :=
  (∀ p ∈ v.weights, 0 ≤ p.2) ∧ (v.weights.map Prod.snd).sum ≤ 1

section
variable {vs : List (ValidatorWeightVote ℚ)} {order : List String}

theorem weightedSum_eq (vs : List (ValidatorWeightVote ℚ)) (hotkey : String) :
    weightedSum vs hotkey = (vs.map fun v => given v hotkey * v.stake.toNat).sum := by
  refine (foldl_sum (μ := id) (fun sum v => ?_) vs 0).trans (zero_add _)
  unfold given
  cases v.getWeight hotkey with
  | none => simp
  | some w => rfl

theorem given_nonneg {v : ValidatorWeightVote ℚ} (hv : ∀ p ∈ v.weights, 0 ≤ p.2) (hotkey : String) :
    0 ≤ given v hotkey := by
  unfold given ValidatorWeightVote.getWeight
  cases h : v.weights.find? fun p => p.1 = hotkey with
  | none => exact le_rfl
  | some p => exact hv p (mem_of_find?_eq_some h)

theorem sum_given_le {v : ValidatorWeightVote ℚ} (hv : ∀ p ∈ v.weights, 0 ≤ p.2)
    (hor : order.Nodup) : (order.map (given v)).sum ≤ (v.weights.map Prod.snd).sum := by
  generalize hwg : v.weights = weights at hv
  induction weights generalizing v with
  | nil =>
    have hz : given v = fun _ => 0 := by
      funext h
      simp [given, ValidatorWeightVote.getWeight, hwg]
    simp [hz]
  | cons p weights ih =>
    rw [forall_mem_cons] at hv
    -- the vote without its first weight
    let rest := { v with weights := weights }
    have htr : ∀ h ∈ order, given v h ≤ (if h = p.1 then p.2 else 0) + given rest h := by
      intro h _
      have hr : 0 ≤ given rest h := given_nonneg hv.2 h
      unfold given ValidatorWeightVote.getWeight at *
      rw [hwg, find?_cons]
      by_cases hp : h = p.1
      · simpa [hp] using hr
      · simp [Ne.symm hp, hp, rest]
    calc (order.map (given v)).sum
        ≤ (order.map fun h => (if h = p.1 then p.2 else 0) + given rest h).sum := sum_le_sum htr
      _ = order.count p.1 • p.2 + (order.map (given rest)).sum := by
          rw [sum_map_add, sum_map_eq_nsmul_single p.1 _ fun h hne _ => if_neg hne, if_pos rfl]
      _ ≤ 1 • p.2 + (weights.map Prod.snd).sum := by
          gcongr
          · exact hv.1
          · exact nodup_iff_count_le_one.mp hor p.1
          · exact ih rfl hv.2
      _ = ((p :: weights).map Prod.snd).sum := by simp

theorem sum_weighted_le (hvt : ∀ v ∈ vs, FairVote v) (hor : order.Nodup) :
    (order.map fun h => (vs.map fun v => given v h * v.stake.toNat).sum).sum ≤
      (vs.map fun v => (v.stake.toNat : ℚ)).sum := by
  induction vs with
  | nil => simp
  | cons v vs ih =>
    rw [forall_mem_cons] at hvt
    simp only [map_cons, sum_cons, sum_map_add, sum_map_mul_right]
    have hon : (order.map (given v)).sum ≤ 1 := (sum_given_le hvt.1.1 hor).trans hvt.1.2
    have hv := mul_le_of_le_one_left (Nat.cast_nonneg (α := ℚ) v.stake.toNat) hon
    exact add_le_add hv (ih hvt.2)

section
variable (hf : (vs.map fun v => v.stake.toNat).sum < 2 ^ 64)
include hf

theorem sum_stakes : (vs.map fun v => (v.stake.toNat : ℚ)).sum = (totalStake vs).toNat := by
  have htt : (totalStake vs).toNat = 0 + (vs.map fun v => v.stake.toNat).sum :=
    foldl_toNat (μ := id) (fun _ _ => rfl) vs 0 (by simpa using hf)
  rw [htt, Nat.zero_add, Nat.cast_list_sum, map_map]
  rfl

variable (hp : 0 < totalStake vs)
include hp

theorem sum_stakes_pos : 0 < (vs.map fun v => (v.stake.toNat : ℚ)).sum := by
  rw [sum_stakes hf, Nat.cast_pos]
  exact UInt64.lt_iff_toNat_lt.mp hp

theorem finalWeight_eq (hotkey : String) :
    finalWeight vs hotkey = (vs.map fun v => given v hotkey * v.stake.toNat).sum /
      (vs.map fun v => (v.stake.toNat : ℚ)).sum := by
  rw [finalWeight, if_pos hp, weightedSum_eq, sum_stakes hf]
  rfl

theorem le_finalWeight {hotkey : String} {lo : ℚ} (hlo : ∀ v ∈ vs, lo ≤ given v hotkey) :
    lo ≤ finalWeight vs hotkey := by
  rw [finalWeight_eq hf hp, le_div_iff₀ (sum_stakes_pos hf hp), ← sum_map_mul_left]
  exact sum_le_sum fun v hv => mul_le_mul_of_nonneg_right (hlo v hv) (Nat.cast_nonneg _)

theorem finalWeight_le {hotkey : String} {hi : ℚ} (hhi : ∀ v ∈ vs, given v hotkey ≤ hi) :
    finalWeight vs hotkey ≤ hi := by
  rw [finalWeight_eq hf hp, div_le_iff₀ (sum_stakes_pos hf hp), ← sum_map_mul_left]
  exact sum_le_sum fun v hv => mul_le_mul_of_nonneg_right (hhi v hv) (Nat.cast_nonneg _)

theorem sum_finalWeight_le (hv : ∀ v ∈ vs, FairVote v) (hor : order.Nodup) :
    (order.map (finalWeight vs)).sum ≤ 1 := by
  simp only [funext (finalWeight_eq hf hp), div_eq_mul_inv, sum_map_mul_right]
  rw [← div_eq_mul_inv, div_le_one (sum_stakes_pos hf hp)]
  exact sum_weighted_le hv hor

end
end

/-- every aggregated weight is between the weights that the votes give, and all of them sum to at
most one -/
def WeightAggregator.Averages (C : Crypto) (now : Int64) (agg : WeightAggregator ℚ)
    (order : List String) : Prop :=
  (∀ p ∈ (agg.aggregateStakeWeighted C now order).weights,
    (∀ lo, (∀ v ∈ agg.votes, lo ≤ given v p.1) → lo ≤ p.2) ∧
    ∀ hi, (∀ v ∈ agg.votes, given v p.1 ≤ hi) → p.2 ≤ hi) ∧
  ((agg.aggregateStakeWeighted C now order).weights.map Prod.snd).sum ≤ 1

/-- the votes with all their weight on one hotkey -/
def allFor (hotkey : String) (vs : List (ValidatorWeightVote ℚ)) : List (ValidatorWeightVote ℚ) :=
  vs.map fun v => { v with weights := [(hotkey, 1)] }

section
variable {C : Crypto} {now : Int64} {agg : WeightAggregator ℚ} {order : List String}
  {vs : List (ValidatorWeightVote ℚ)} {hotkey : String}

theorem totalStake_eq_foldl (vs : List (ValidatorWeightVote ℚ)) :
    totalStake vs = (vs.map ValidatorWeightVote.stake).foldl (· + ·) 0 := foldl_map.symm

theorem ne_nil_of_totalStake (hp : 0 < totalStake vs) : vs ≠ [] := by
  rintro rfl
  cases hp

variable (C now order) in
theorem weights_perm (hp : 0 < totalStake agg.votes) :
    (agg.aggregateStakeWeighted C now order).weights.Perm (order.map (weighed agg.votes)) := by
  rw [WeightAggregator.aggregateStakeWeighted, if_neg (ne_nil_of_totalStake hp)]
  exact perm_insertionSort _ _

theorem averages_of_fit (hp : 0 < totalStake agg.votes)
    (hf : (agg.votes.map fun v => v.stake.toNat).sum < 2 ^ 64) (hor : agg.IteratesAs order)
    (hv : ∀ v ∈ agg.votes, FairVote v) : agg.Averages C now order := by
  have hpr := weights_perm C now order hp
  constructor
  · intro p hm
    obtain ⟨h, -, rfl⟩ := mem_map.mp (hpr.subset hm)
    exact ⟨fun lo => le_finalWeight hf hp, fun hi => finalWeight_le hf hp⟩
  · rw [(hpr.map Prod.snd).sum_eq, map_map]
    exact sum_finalWeight_le hf hp hv (hor.nodup_iff.mpr (AList.keys_nodup _))

theorem stakes_allFor (hotkey : String) (vs : List (ValidatorWeightVote ℚ)) :
    (allFor hotkey vs).map ValidatorWeightVote.stake = vs.map ValidatorWeightVote.stake := map_map

theorem fairVote_of_mem_allFor {v : ValidatorWeightVote ℚ} (hv : v ∈ allFor hotkey vs) :
    FairVote v := by
  obtain ⟨w, -, rfl⟩ := mem_map.mp hv
  simp [FairVote]

theorem keys_allHotkeys_allFor (hne : vs ≠ []) :
    [hotkey].Perm (allHotkeys (allFor hotkey vs)).keys := by
  rw [perm_ext_iff_of_nodup (nodup_singleton _) (AList.keys_nodup _)]
  intro h
  obtain ⟨v, hv⟩ := exists_mem_of_ne_nil vs hne
  rw [← AList.mem_keys, mem_allHotkeys, mem_singleton]
  constructor
  · rintro rfl
    exact ⟨_, mem_map_of_mem hv, mem_cons_self⟩
  · rintro ⟨w, hw, hin⟩
    obtain ⟨v, -, rfl⟩ := mem_map.mp hw
    exact mem_singleton.mp hin

theorem weightedSum_allFor (hotkey : String) (vs : List (ValidatorWeightVote ℚ)) :
    weightedSum (allFor hotkey vs) hotkey = ((vs.map fun v => v.stake.toNat).sum : Nat) := by
  rw [weightedSum_eq, allFor, map_map, Nat.cast_list_sum, map_map]
  refine congrArg sum (map_congr_left fun v _ => ?_)
  simp [given, ValidatorWeightVote.getWeight]

end

/-- **When the stake-weighted average is one.**  With given stakes, the weights are averages and sum
to at most one, for all fair votes, exactly if the stakes fit together in 64 bits. -/
theorem weighted_average_iff (C : Crypto) (now : Int64) (votes : List (ValidatorWeightVote ℚ))
    (hpos : 0 < totalStake votes) :
    (∀ (agg : WeightAggregator ℚ) (order : List String),
      agg.votes.map ValidatorWeightVote.stake = votes.map ValidatorWeightVote.stake →
      agg.IteratesAs order → (∀ v ∈ agg.votes, FairVote v) → agg.Averages C now order) ↔
    (votes.map fun v => v.stake.toNat).sum < 2 ^ 64 := by
  constructor
  · intro h
    -- with all weight on one hotkey, its weight is the sum of the stakes over what that wraps to
    have hst := stakes_allFor "a" votes
    have htt : totalStake (allFor "a" votes) = totalStake votes := by
      rw [totalStake_eq_foldl, hst, totalStake_eq_foldl]
    have hp : 0 < totalStake (allFor "a" votes) := htt ▸ hpos
    have hle := (h ⟨"c", 0, allFor "a" votes⟩ ["a"] hst
      (keys_allHotkeys_allFor (ne_nil_of_totalStake hpos)) fun v => fairVote_of_mem_allFor).2
    rw [((weights_perm C now ["a"] hp).map Prod.snd).sum_eq, map_singleton, map_singleton,
      sum_singleton, weighed, finalWeight, if_pos hp, weightedSum_allFor, htt] at hle
    have hpq : (0 : ℚ) < (totalStake votes).toNat := by
      rw [Nat.cast_pos]
      exact UInt64.lt_iff_toNat_lt.mp hpos
    have hle : (votes.map fun v => v.stake.toNat).sum ≤ (totalStake votes).toNat :=
      Nat.cast_le.mp ((div_le_one hpq).mp hle)
    exact hle.trans_lt (totalStake votes).toNat_lt
  · intro hfit agg order hst
    refine averages_of_fit ?_ ?_
    · rwa [totalStake_eq_foldl, hst, ← totalStake_eq_foldl]
    · have hsm := congrArg (fun stakes => (stakes.map UInt64.toNat).sum) hst
      simp only [map_map] at hsm
      exact hsm.trans_lt hfit

theorem weighted_average_two :
    (((collectVotes "c" 1 twoVotes).aggregateStakeWeighted sampleCrypto 5 ["a", "b"]).weights.map
      Prod.snd).sum ≤ 1 := by
  refine ((weighted_average_iff sampleCrypto 5 twoVotes ?_).mpr ?_ (collectVotes "c" 1 twoVotes)
    ["a", "b"] ?_ ?_ ?_).2
  · decide +kernel
  · decide +kernel
  · decide +kernel
  · unfold WeightAggregator.IteratesAs
    decide +kernel
  · unfold FairVote
    decide +kernel

/-- Two stakes that wrap around to `1`. -/
theorem wrapped_average : ¬ ∀ (C : Crypto) (now : Int64) (agg : WeightAggregator ℚ)
    (order : List String), agg.IteratesAs order → (∀ v ∈ agg.votes, FairVote v) →
    0 < totalStake agg.votes →
    ((agg.aggregateStakeWeighted C now order).weights.map Prod.snd).sum ≤ 1 := by
  intro h
  have hle := h sampleCrypto 0 ⟨"c", 1, [.new 0 "v" "c" 1 [("a", 1)] [] (2 ^ 63),
    .new 0 "w" "c" 1 [("a", 1)] [] (2 ^ 63 + 1)]⟩ ["a"]
    (by unfold WeightAggregator.IteratesAs; decide +kernel) (by unfold FairVote; decide +kernel)
    (by decide +kernel)
  revert hle
  decide +kernel

/-! ## the median -/

section
variable {F : Type} [F64 F]

/-- the comparison of the sort: the weight `b` is not the smaller one -/
def Ascending (a b : F) : Prop := F64.lt b a = false

instance : DecidableRel (Ascending (F := F)) := fun a b =>
  inferInstanceAs (Decidable (F64.lt b a = false))

/-- the middle of a sorted list, or the mean of the two in the middle -/
def middle (sorted : List F) : F :=
  let len := sorted.length
  if len % 2 = 0 then
    F64.div (F64.add (sorted.getD (len / 2 - 1) F64.zero) (sorted.getD (len / 2) F64.zero))
      (F64.ofU64 2)
  else sorted.getD (len / 2) F64.zero

def median (weights : List F) : F := middle (weights.insertionSort Ascending)

/-- the weights of the votes that name the hotkey -/
def namedWeights (votes : List (ValidatorWeightVote F)) (hotkey : String) : List F :=
  votes.filterMap fun v => v.getWeight hotkey

def WeightAggregator.aggregateMedian (C : Crypto) (now : Int64) (agg : WeightAggregator F)
    (order : List String) : StoredWeights F :=
  if agg.votes = [] then .new C now agg.challengeId agg.epoch [] []
  else
    .new C now agg.challengeId agg.epoch
      ((order.filterMap fun hotkey =>
        if (namedWeights agg.votes hotkey).isEmpty then none
        else some (hotkey, median (namedWeights agg.votes hotkey))).insertionSort Descending)
      agg.votes

end

theorem ascending_iff {a b : ℚ} : Ascending a b ↔ a ≤ b := decide_eq_false_iff_not.trans not_lt

instance : Std.Total (Ascending (F := ℚ)) := ⟨fun a b => by
  simpa only [ascending_iff] using le_total a b⟩

instance : IsTrans ℚ Ascending := ⟨fun a b c => by
  simpa only [ascending_iff] using le_trans⟩

section
variable {α : Type} [LinearOrder α] {c x : α} {l r : List α}

/-- what more than half of a sorted list is, is in its middle -/
theorem middle_of_majority (hsorted : (l ++ x :: r).Pairwise (· ≤ ·))
    (hm : (l ++ x :: r).length < 2 * (l ++ x :: r).count c)
    (hl : l.length ≤ r.length + 1) (hr : r.length ≤ l.length + 1) : x = c := by
  obtain ⟨-, hxr, hlx⟩ := pairwise_append.mp hsorted
  have hcl := count_le_length (a := c) (l := l)
  have hcr := count_le_length (a := c) (l := r)
  rw [count_append, length_append, length_cons, count_cons] at hm
  rcases lt_trichotomy x c with h | h | h
  · have hn : l.count c = 0 := count_eq_zero.mpr fun hc => (hlx c hc x mem_cons_self).not_gt h
    simp only [hn, beq_false_of_ne h.ne] at hm
    grind
  · exact h
  · have hn : r.count c = 0 := count_eq_zero.mpr fun hc =>
      ((pairwise_cons.mp hxr).1 c hc).not_gt h
    simp only [hn, beq_false_of_ne h.ne'] at hm
    grind

/-- a list whose middle is its least value has it more than half of the time -/
theorem majority_of_middle (hsorted : (l ++ x :: r).Pairwise (· ≤ ·)) (hls : ∀ y ∈ l, x ≤ y)
    (hl : r.length ≤ l.length) : (l ++ x :: r).length < 2 * (l ++ x :: r).count x := by
  have ha : l.count x = l.length := count_eq_length.mpr fun y hy =>
    le_antisymm (hls y hy) ((pairwise_append.mp hsorted).2.2 y hy x mem_cons_self)
  rw [count_append, ha, count_cons_self, length_append, length_cons]
  omega

end

section
variable {sorted : List ℚ}

theorem middle_eq (sorted : List ℚ) : middle sorted =
    if sorted.length % 2 = 0 then
      (sorted.getD (sorted.length / 2 - 1) 0 + sorted.getD (sorted.length / 2) 0) / 2
    else sorted.getD (sorted.length / 2) 0 := by
  show (if _ then (_ + _) / ((2 : Nat) : ℚ) else _) = _
  rw [Nat.cast_ofNat]
  rfl

theorem split_getD {j : Nat} (hj : j < sorted.length) :
    sorted.take j ++ sorted.getD j 0 :: sorted.drop (j + 1) = sorted := by
  rw [getD_eq_getElem?_getD, getElem?_eq_getElem hj, Option.getD_some,
    ← drop_eq_getElem_cons hj, take_append_drop]

variable (hs : sorted.Pairwise (· ≤ ·)) (hne : sorted ≠ [])
include hs hne

theorem middle_eq_zero (hm : sorted.length < 2 * sorted.count 0) : middle sorted = 0 := by
  have hmd : ∀ j < sorted.length, 2 * j ≤ sorted.length → sorted.length ≤ 2 * (j + 1) →
      sorted.getD j 0 = 0 := by
    intro j hj hlw hh
    rw [← split_getD hj] at hs hm
    apply middle_of_majority hs hm
    · grind
    · grind
  have hpos := length_pos_iff.mpr hne
  rw [middle_eq, hmd (sorted.length / 2) (by omega) (by omega) (by omega)]
  split
  · rw [hmd _ (by omega) (by omega) (by omega), add_zero, zero_div]
  · rfl

theorem majority_of_middle_eq_zero (hnn : ∀ w ∈ sorted, 0 ≤ w) (hz : middle sorted = 0) :
    sorted.length < 2 * sorted.count 0 := by
  have hpos := length_pos_iff.mpr hne
  have hg : ∀ j, 0 ≤ sorted.getD j 0 := by
    intro j
    rw [getD_eq_getElem?_getD]
    cases hj : sorted[j]? with
    | none => exact le_rfl
    | some w => exact hnn w (mem_of_getElem? hj)
  have hu : sorted.getD (sorted.length / 2) 0 = 0 := by
    rw [middle_eq] at hz
    split at hz
    · have hsm := (div_eq_zero_iff.mp hz).resolve_right two_ne_zero
      exact ((add_eq_zero_iff_of_nonneg (hg _) (hg _)).mp hsm).2
    · exact hz
  have hh : sorted.length / 2 < sorted.length := by omega
  have hsp := split_getD hh
  rw [hu] at hsp
  rw [← hsp] at hs
  have hm := majority_of_middle hs (fun w hw => hnn w (mem_of_mem_take hw)) (by grind)
  rwa [hsp] at hm

end

/-- **What the median resists.**  The aggregated weight of a hotkey is zero if more than half of the
votes that name it give it zero; where no weight is negative, it is zero only then. -/
theorem median_zero_iff (C : Crypto) (now : Int64) (agg : WeightAggregator ℚ) (order : List String)
    (hotkey : String) (w : ℚ) (hw : (hotkey, w) ∈ (agg.aggregateMedian C now order).weights) :
    ((namedWeights agg.votes hotkey).length < 2 * (namedWeights agg.votes hotkey).count 0 → w = 0) ∧
    ((∀ x ∈ namedWeights agg.votes hotkey, 0 ≤ x) → w = 0 →
      (namedWeights agg.votes hotkey).length < 2 * (namedWeights agg.votes hotkey).count 0) := by
  unfold WeightAggregator.aggregateMedian at hw
  split at hw
  · cases hw
  · obtain ⟨h, -, hsm⟩ := mem_filterMap.mp ((mem_insertionSort _).mp hw)
    split at hsm
    · cases hsm
    · rename_i hne
      cases hsm
      have hpr := perm_insertionSort Ascending (namedWeights agg.votes hotkey)
      have hsorted := (pairwise_insertionSort Ascending
        (namedWeights agg.votes hotkey)).imp ascending_iff.mp
      have hnl : (namedWeights agg.votes hotkey).insertionSort Ascending ≠ [] := by
        intro h
        rw [h] at hpr
        exact hne (isEmpty_iff.mpr hpr.nil_eq.symm)
      rw [← hpr.count_eq, ← hpr.length_eq]
      refine ⟨middle_eq_zero hsorted hnl, fun hnn => ?_⟩
      exact majority_of_middle_eq_zero hsorted hnl fun x hx => hnn x (hpr.subset hx)

def threeVotes (x y z : List (String × ℚ)) : WeightAggregator ℚ :=
  ⟨"c", 1, [.new 0 "u" "c" 1 x [] 1, .new 0 "v" "c" 1 y [] 1, .new 0 "w" "c" 1 z [] 1]⟩

/-- One vote for the hotkey and two that give it zero. -/
def outvoted : WeightAggregator ℚ := threeVotes [("a", 1)] [("a", 0)] [("a", 0)]

theorem median_of_two_zeros :
    ("a", 0) ∈ (outvoted.aggregateMedian sampleCrypto 0 ["a"]).weights ∧
      (namedWeights outvoted.votes "a").length < 2 * (namedWeights outvoted.votes "a").count 0 := by
  have hw : ("a", 0) ∈ (outvoted.aggregateMedian sampleCrypto 0 ["a"]).weights := by decide +kernel
  exact ⟨hw, (median_zero_iff sampleCrypto 0 outvoted ["a"] "a" 0 hw).2 (by decide +kernel) rfl⟩

/-- One vote of three names the hotkey. -/
theorem minority_sets_median : ¬ ∀ (C : Crypto) (now : Int64) (agg : WeightAggregator ℚ)
    (order : List String), agg.IteratesAs order → ∀ hotkey w,
    (hotkey, w) ∈ (agg.aggregateMedian C now order).weights →
    agg.votes.length < 2 * (agg.votes.countP fun v => (v.getWeight hotkey).getD 0 = 0) →
    w = 0 := by
  intro h
  refine absurd (h sampleCrypto 0 (threeVotes [("a", 1)] [] []) ["a"] ?_ "a" 1 ?_ ?_) one_ne_zero
  · unfold WeightAggregator.IteratesAs
    decide +kernel
  · decide +kernel
  · decide +kernel

end Platform.Storage
