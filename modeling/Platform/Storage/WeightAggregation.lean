import Platform.Chain.Types
import Platform.Lib.Sorting
import Platform.Storage.WeightVotes

/-!
# Aggregation of weight votes (`weights.rs` of the distributed storage)

The hotkeys of all votes are collected in a hash set; the order in which it is gone through is an
argument.  The sort is stable.
-/

namespace Platform.Storage
open Platform.Core Lib Chain List

structure WeightAggregator (F : Type) where
  challengeId : String
  epoch : UInt64
  votes : List (ValidatorWeightVote F)

section
variable {F : Type}

namespace WeightAggregator

def new (challengeId : String) (epoch : UInt64) : WeightAggregator F := ⟨challengeId, epoch, []⟩

def addVote (agg : WeightAggregator F) (vote : ValidatorWeightVote F) : WeightAggregator F :=
  if vote.challengeId = agg.challengeId ∧ vote.epoch = agg.epoch then
    if agg.votes.any fun v => v.validatorHotkey = vote.validatorHotkey then agg
    else { agg with votes := agg.votes ++ [vote] }
  else agg

end WeightAggregator

def allHotkeys (votes : List (ValidatorWeightVote F)) : HashSet String :=
  votes.foldl (fun set v => v.weights.foldl (fun set p => set.insert p.1 ()) set) ∅

def totalStake (votes : List (ValidatorWeightVote F)) : UInt64 :=
  votes.foldl (fun total v => total + v.stake) 0

variable [F64 F]

def weightedSum (votes : List (ValidatorWeightVote F)) (hotkey : String) : F :=
  votes.foldl (fun sum v =>
    match v.getWeight hotkey with
    | some weight => F64.add sum (F64.mul weight (F64.ofU64 v.stake))
    | none => sum) F64.zero

/-- `avg` -/
def plainAverage (votes : List (ValidatorWeightVote F)) (hotkey : String) : F :=
  F64.div ((votes.filterMap fun v => v.getWeight hotkey).foldl F64.add F64.zero)
    (F64.ofU64 (.ofNat votes.length))

def finalWeight (votes : List (ValidatorWeightVote F)) (hotkey : String) : F :=
  if 0 < totalStake votes then
    F64.div (weightedSum votes hotkey) (F64.ofU64 (totalStake votes))
  else plainAverage votes hotkey

/-- the comparison of the sort: the weight of `b` is not the larger one -/
def Descending (a b : String × F) : Prop := F64.lt a.2 b.2 = false

instance : DecidableRel (Descending (F := F)) := fun a b =>
  inferInstanceAs (Decidable (F64.lt a.2 b.2 = false))

def WeightAggregator.aggregateStakeWeighted (C : Crypto) (now : Int64) (agg : WeightAggregator F)
    (order : List String) : StoredWeights F :=
  if agg.votes = [] then .new C now agg.challengeId agg.epoch [] []
  else
    .new C now agg.challengeId agg.epoch
      ((order.map fun hotkey => (hotkey, finalWeight agg.votes hotkey)).insertionSort Descending)
      agg.votes

/-- an order in which the hash set of the hotkeys can be gone through -/
def WeightAggregator.IteratesAs (agg : WeightAggregator F) (order : List String) : Prop :=
  order.Perm (allHotkeys agg.votes).keys

end

/-! ## the votes that are kept -/

section
variable {F : Type}

def collectVotes (challengeId : String) (epoch : UInt64) (votes : List (ValidatorWeightVote F)) :
    WeightAggregator F := votes.foldl WeightAggregator.addVote (.new challengeId epoch)

theorem foldl_addVote {agg : WeightAggregator F} {votes : List (ValidatorWeightVote F)}
    (hvotes : ((agg.votes ++ votes).map ValidatorWeightVote.validatorHotkey).Nodup)
    (hfor : ∀ v ∈ votes, v.challengeId = agg.challengeId ∧ v.epoch = agg.epoch) :
    votes.foldl WeightAggregator.addVote agg = { agg with votes := agg.votes ++ votes } := by
  induction votes generalizing agg with
  | nil => rw [append_nil, foldl_nil]
  | cons v votes ih =>
    have ha : agg.addVote v = { agg with votes := agg.votes ++ [v] } := by
      rw [WeightAggregator.addVote, if_pos (hfor v mem_cons_self), if_neg]
      rw [any_eq_true]
      rintro ⟨w, hw, heq⟩
      rw [map_append] at hvotes
      exact (nodup_append.mp hvotes).2.2 _ (mem_map_of_mem hw) _ mem_cons_self
        (of_decide_eq_true heq)
    rw [foldl_cons, ha, ih]
    · rw [append_assoc, singleton_append]
    · rwa [append_assoc, singleton_append]
    · exact fun w hw => hfor w (mem_cons_of_mem _ hw)

theorem mem_allHotkeys (votes : List (ValidatorWeightVote F)) (hotkey : String) :
    hotkey ∈ allHotkeys votes ↔ ∃ v ∈ votes, hotkey ∈ v.weights.map Prod.fst := by
  have hon : ∀ (ws : List (String × F)) (set : HashSet String),
      hotkey ∈ ws.foldl (fun set p => set.insert p.1 ()) set ↔
        hotkey ∈ set ∨ hotkey ∈ ws.map Prod.fst := by
    intro ws
    induction ws with
    | nil => exact fun set => by simp
    | cons p ws ih =>
      intro set
      rw [foldl_cons, ih, AList.mem_insert, map_cons, mem_cons]
      tauto
  have ha : ∀ (votes : List (ValidatorWeightVote F)) (set : HashSet String),
      hotkey ∈ votes.foldl (fun set v => v.weights.foldl (fun set p => set.insert p.1 ()) set) set ↔
        hotkey ∈ set ∨ ∃ v ∈ votes, hotkey ∈ v.weights.map Prod.fst := by
    intro votes
    induction votes with
    | nil => exact fun set => by simp
    | cons v votes ih =>
      intro set
      rw [foldl_cons, ih, hon]
      simp only [mem_cons, exists_eq_or_imp, or_assoc]
  rw [allHotkeys, ha]
  simp

end

/-! ## exact arithmetic -/

section
variable {vs votes' : List (ValidatorWeightVote ℚ)}

instance : Std.Total (Descending (F := ℚ)) where
  total a b := by
    rcases le_total a.2 b.2 with h | h
    · exact .inr (decide_eq_false (not_lt.mpr h))
    · exact .inl (decide_eq_false (not_lt.mpr h))

instance : IsTrans (String × ℚ) Descending where
  trans _ _ _ hab hbc := decide_eq_false (not_lt.mpr
    ((not_lt.mp (of_decide_eq_false hbc)).trans (not_lt.mp (of_decide_eq_false hab))))

theorem eq_of_descending {a b : String × ℚ} (hab : Descending a b) (hba : Descending b a) :
    a.2 = b.2 :=
  le_antisymm (not_lt.mp (of_decide_eq_false hba)) (not_lt.mp (of_decide_eq_false hab))

theorem totalStake_perm (h : vs.Perm votes') : totalStake vs = totalStake votes' := by
  refine h.foldl_eq' (fun v _ w _ total => ?_) 0
  rw [UInt64.add_assoc, UInt64.add_assoc, UInt64.add_comm v.stake]

theorem weightedSum_perm (h : vs.Perm votes') (hotkey : String) :
    weightedSum vs hotkey = weightedSum votes' hotkey := by
  refine h.foldl_eq' (fun v _ w _ sum => ?_) _
  cases v.getWeight hotkey with
  | none => rfl
  | some x =>
    cases w.getWeight hotkey with
    | none => rfl
    | some y => exact add_right_comm sum _ _

theorem plainAverage_perm (h : vs.Perm votes') (hotkey : String) :
    plainAverage vs hotkey = plainAverage votes' hotkey := by
  unfold plainAverage
  rw [h.length_eq]
  congr 1
  exact (h.filterMap _).foldl_eq' (fun x _ y _ sum => add_right_comm sum x y) _

theorem finalWeight_perm (h : vs.Perm votes') (hotkey : String) :
    finalWeight vs hotkey = finalWeight votes' hotkey := by
  rw [finalWeight, finalWeight, totalStake_perm h, weightedSum_perm h, plainAverage_perm h]

theorem keys_allHotkeys_perm (h : vs.Perm votes') :
    (allHotkeys vs).keys.Perm (allHotkeys votes').keys := by
  rw [perm_ext_iff_of_nodup (AList.keys_nodup _) (AList.keys_nodup _)]
  intro hotkey
  rw [← AList.mem_keys, ← AList.mem_keys, mem_allHotkeys, mem_allHotkeys]
  exact ⟨fun ⟨v, hv, hin⟩ => ⟨v, h.subset hv, hin⟩, fun ⟨v, hv, hin⟩ => ⟨v, h.symm.subset hv, hin⟩⟩

end

/-! ## the result -/

def SameWeights (s s' : StoredWeights ℚ) : Prop :=
  s.weights = s'.weights ∧ s.weightsHash = s'.weightsHash

section
variable {C : Crypto} {now : Int64} {cid : String} {ep : UInt64}
  {votes vs : List (ValidatorWeightVote ℚ)} {order : List String}

def weighed (votes : List (ValidatorWeightVote ℚ)) (hotkey : String) : String × ℚ :=
  (hotkey, finalWeight votes hotkey)

theorem weighed_injective (votes : List (ValidatorWeightVote ℚ)) :
    Function.Injective (weighed votes) := fun _ _ h => congrArg Prod.fst h

theorem weightsHash_aggregate (agg : WeightAggregator ℚ) :
    (agg.aggregateStakeWeighted C now order).weightsHash =
      StoredWeights.computeHash C (agg.aggregateStakeWeighted C now order).weights := by
  unfold WeightAggregator.aggregateStakeWeighted
  split <;> rfl

theorem ties_iff (votes : List (ValidatorWeightVote ℚ)) :
    (∀ a ∈ (allHotkeys votes).keys.map (weighed votes),
      ∀ b ∈ (allHotkeys votes).keys.map (weighed votes), Descending a b → Descending b a → a = b) ↔
    ∀ h ∈ allHotkeys votes, ∀ h' ∈ allHotkeys votes,
      finalWeight votes h = finalWeight votes h' → h = h' := by
  constructor
  · intro h x hx y hy heq
    have hle : Descending (weighed votes x) (weighed votes y) := decide_eq_false (not_lt.mpr heq.ge)
    have hge : Descending (weighed votes y) (weighed votes x) := decide_eq_false (not_lt.mpr heq.le)
    exact weighed_injective votes (h _ (mem_map_of_mem (AList.mem_keys.mp hx)) _
      (mem_map_of_mem (AList.mem_keys.mp hy)) hle hge)
  · intro h a ha b hb hab hba
    obtain ⟨x, hx, rfl⟩ := mem_map.mp ha
    obtain ⟨y, hy, rfl⟩ := mem_map.mp hb
    rw [h x (AList.mem_keys.mpr hx) y (AList.mem_keys.mpr hy) (eq_of_descending hab hba)]

theorem order_of_weighed {l : List (String × ℚ)}
    (hl : l.Perm ((allHotkeys votes).keys.map (weighed votes))) :
    (l.map Prod.fst).Perm (allHotkeys votes).keys ∧ (l.map Prod.fst).map (weighed votes) = l := by
  constructor
  · have hfs := hl.map Prod.fst
    rwa [map_map, show Prod.fst ∘ weighed votes = id from rfl, map_id] at hfs
  · rw [map_map]
    refine (map_congr_left fun p hp => ?_).trans (map_id l)
    obtain ⟨x, -, rfl⟩ := mem_map.mp (hl.subset hp)
    rfl

variable (hvt : (votes.map ValidatorWeightVote.validatorHotkey).Nodup)
  (hf : ∀ v ∈ votes, v.challengeId = cid ∧ v.epoch = ep) (hvs : vs.Perm votes)
include hvt hf hvs

theorem votes_of_perm : (collectVotes cid ep vs).votes = vs :=
  congrArg WeightAggregator.votes (@foldl_addVote _ (.new cid ep) vs
    ((hvs.map _).nodup_iff.mpr hvt) fun v hv => hf v (hvs.subset hv))

theorem iteratesAs_iff : (collectVotes cid ep vs).IteratesAs order ↔
    order.Perm (allHotkeys votes).keys := by
  rw [WeightAggregator.IteratesAs, votes_of_perm hvt hf hvs]
  exact ⟨fun h => h.trans (keys_allHotkeys_perm hvs),
    fun h => h.trans (keys_allHotkeys_perm hvs).symm⟩

theorem weights_aggregate (hor : order.Perm (allHotkeys votes).keys) :
    ((collectVotes cid ep vs).aggregateStakeWeighted C now order).weights =
      (order.map (weighed votes)).insertionSort Descending := by
  have hwg : (fun hotkey => (hotkey, finalWeight vs hotkey)) = weighed votes :=
    funext fun hotkey => Prod.ext rfl (finalWeight_perm hvs hotkey)
  unfold WeightAggregator.aggregateStakeWeighted
  rw [votes_of_perm hvt hf hvs, hwg]
  by_cases hnl : vs = []
  · subst hnl
    rw [hvs.nil_eq.symm] at hor
    rw [hor.eq_nil]
    rfl
  · rw [if_neg hnl]
    rfl

end

/-- **When validators aggregate to the same hash.**  For votes of different validators on the
challenge and the epoch: the weights and their hash are the same for every order of the votes and
every order of the hash set, if and only if no two hotkeys end up with one weight. -/
theorem aggregation_order_iff (C : Crypto) (now now' : Int64) {challengeId : String}
    {epoch : UInt64} {votes : List (ValidatorWeightVote ℚ)}
    (hvotes : (votes.map ValidatorWeightVote.validatorHotkey).Nodup)
    (hfor : ∀ v ∈ votes, v.challengeId = challengeId ∧ v.epoch = epoch) :
    (∀ vs vs' : List (ValidatorWeightVote ℚ), vs.Perm votes → vs'.Perm votes →
      ∀ order order' : List String, (collectVotes challengeId epoch vs).IteratesAs order →
        (collectVotes challengeId epoch vs').IteratesAs order' →
        SameWeights ((collectVotes challengeId epoch vs).aggregateStakeWeighted C now order)
          ((collectVotes challengeId epoch vs').aggregateStakeWeighted C now' order')) ↔
    ∀ h ∈ allHotkeys votes, ∀ h' ∈ allHotkeys votes,
      finalWeight votes h = finalWeight votes h' → h = h' := by
  have hnd : ((allHotkeys votes).keys.map (weighed votes)).Nodup :=
    (AList.keys_nodup _).map (weighed_injective votes)
  rw [← ties_iff, ← insertionSort_perm_iff hnd]
  constructor
  · intro h l₁ l₂ h₁ h₂
    obtain ⟨ho₁, hl₁⟩ := order_of_weighed h₁
    obtain ⟨ho₂, hl₂⟩ := order_of_weighed h₂
    have hs := (h votes votes (.refl _) (.refl _) _ _
      ((iteratesAs_iff hvotes hfor (.refl _)).mpr ho₁)
      ((iteratesAs_iff hvotes hfor (.refl _)).mpr ho₂)).1
    rwa [weights_aggregate hvotes hfor (.refl _) ho₁, weights_aggregate hvotes hfor (.refl _) ho₂,
      hl₁, hl₂] at hs
  · intro h vs vs' hvs hvs' order order' ho ho'
    rw [iteratesAs_iff hvotes hfor hvs] at ho
    rw [iteratesAs_iff hvotes hfor hvs'] at ho'
    rw [SameWeights, weightsHash_aggregate, weightsHash_aggregate,
      weights_aggregate hvotes hfor hvs ho, weights_aggregate hvotes hfor hvs' ho',
      h _ _ (ho.map _) (ho'.map _)]
    exact ⟨rfl, rfl⟩

def twoVotes : List (ValidatorWeightVote ℚ) :=
  [.new 0 "v" "c" 1 [("a", 1), ("b", 0)] [] 1, .new 0 "w" "c" 1 [("b", 1)] [] 3]

theorem aggregation_order_two :
    SameWeights
      ((collectVotes "c" 1 twoVotes).aggregateStakeWeighted sampleCrypto 5 ["a", "b"])
      ((collectVotes "c" 1 twoVotes.reverse).aggregateStakeWeighted sampleCrypto 6 ["b", "a"]) := by
  have hwg : ∀ h ∈ (allHotkeys twoVotes).keys, ∀ h' ∈ (allHotkeys twoVotes).keys,
      finalWeight twoVotes h = finalWeight twoVotes h' → h = h' := by decide +kernel
  refine (@aggregation_order_iff sampleCrypto 5 6 "c" 1 twoVotes (by decide +kernel)
    (by decide +kernel)).mpr ?_ twoVotes twoVotes.reverse (.refl _) (reverse_perm _) _ _ ?_ ?_
  · exact fun h hh h' hh' => hwg h (AList.mem_keys.mp hh) h' (AList.mem_keys.mp hh')
  · unfold WeightAggregator.IteratesAs
    decide +kernel
  · unfold WeightAggregator.IteratesAs
    decide +kernel

/-- One vote that gives two hotkeys the same weight. -/
theorem aggregation_depends_on_order :
    ¬ ∀ (C : Crypto) (now now' : Int64) (challengeId : String) (epoch : UInt64)
      (votes : List (ValidatorWeightVote ℚ)),
      (votes.map ValidatorWeightVote.validatorHotkey).Nodup →
      (∀ v ∈ votes, v.challengeId = challengeId ∧ v.epoch = epoch) →
      ∀ vs vs' : List (ValidatorWeightVote ℚ), vs.Perm votes → vs'.Perm votes →
      ∀ order order' : List String, (collectVotes challengeId epoch vs).IteratesAs order →
        (collectVotes challengeId epoch vs').IteratesAs order' →
        SameWeights ((collectVotes challengeId epoch vs).aggregateStakeWeighted C now order)
          ((collectVotes challengeId epoch vs').aggregateStakeWeighted C now' order') := by
  intro h
  let votes : List (ValidatorWeightVote ℚ) := [.new 0 "v" "c" 1 [("a", 1), ("b", 1)] [] 5]
  have hs := h sampleCrypto 0 0 "c" 1 votes (by decide +kernel) (by decide +kernel) votes votes
    (.refl _) (.refl _) ["a", "b"] ["b", "a"]
    (by unfold WeightAggregator.IteratesAs; decide +kernel)
    (by unfold WeightAggregator.IteratesAs; decide +kernel)
  exact absurd hs.2 (by decide +kernel)

end Platform.Storage
