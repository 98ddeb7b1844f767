import Platform.Core.Crypto
import Platform.Core.F64
import Platform.Lib.Fields

/-!
# Weight votes (`weights.rs` of the distributed storage)

The votes of the validators on the weights of an epoch, the bytes that they sign, and the hash of
the weights that are stored.  The clock is an argument.
-/

namespace Platform.Storage
open Platform.Core Lib

section
variable {F : Type} [F64 F]

def weightBits (weights : List (String × F)) : List (String × UInt64) :=
  weights.map fun p => (p.1, F64.toBits p.2)

/-- the loop that both functions below make: `hotkey.as_bytes()`, then `weight.to_le_bytes()` -/
def weightBytes (weights : List (String × F)) : Bytes := (tagged (weightBits weights)).flatten

structure ValidatorWeightVote (F : Type) where
  validatorHotkey : String
  weights : List (String × F)
  signature : Bytes
  timestamp : Int64
  epoch : UInt64
  challengeId : String
  stake : UInt64
deriving DecidableEq

namespace ValidatorWeightVote

def new (now : Int64) (validatorHotkey challengeId : String) (epoch : UInt64)
    (weights : List (String × F)) (signature : Bytes) (stake : UInt64) : ValidatorWeightVote F :=
  ⟨validatorHotkey, weights, signature, now, epoch, challengeId, stake⟩

def signingMessage (v : ValidatorWeightVote F) : Bytes :=
  utf8 v.challengeId ++ (encodeU64 v.epoch ++ weightBytes v.weights)

def getWeight (v : ValidatorWeightVote F) (hotkey : String) : Option F :=
  (v.weights.find? fun p => p.1 = hotkey).map Prod.snd

end ValidatorWeightVote

structure StoredWeights (F : Type) where
  challengeId : String
  epoch : UInt64
  weights : List (String × F)
  validatorVotes : List (ValidatorWeightVote F)
  aggregatedAt : Int64
  weightsHash : Bytes32
  submittedToChain : Bool
  submissionBlock : Option UInt64
deriving DecidableEq

namespace StoredWeights

def computeHash (C : Crypto) (weights : List (String × F)) : Bytes32 :=
  C.sha256 (weightBytes weights)

def new (C : Crypto) (now : Int64) (challengeId : String) (epoch : UInt64)
    (weights : List (String × F)) (votes : List (ValidatorWeightVote F)) : StoredWeights F :=
  ⟨challengeId, epoch, weights, votes, now, computeHash C weights, false, none⟩

end StoredWeights

/-! ## what is signed and what is hashed -/

def ValidatorWeightVote.fields (v : ValidatorWeightVote F) : List Bytes :=
  utf8 v.challengeId :: encodeU64 v.epoch :: tagged (weightBits v.weights)

theorem ValidatorWeightVote.fields_inj {v w : ValidatorWeightVote F} : v.fields = w.fields ↔
    v.challengeId = w.challengeId ∧ v.epoch = w.epoch ∧
      weightBits v.weights = weightBits w.weights := by
  unfold fields
  rw [List.cons.injEq, List.cons.injEq, tagged_inj]
  refine ⟨fun h => ⟨utf8_inj h.1, encodeU64_inj h.2.1, h.2.2⟩, fun h => ?_⟩
  rw [h.1, h.2.1]
  exact ⟨rfl, rfl, h.2.2⟩

theorem ValidatorWeightVote.map_length_fields {v w : ValidatorWeightVote F} :
    v.fields.map List.length = w.fields.map List.length ↔
      (utf8 v.challengeId).length = (utf8 w.challengeId).length ∧
        textLengths (weightBits v.weights) = textLengths (weightBits w.weights) := by
  unfold fields
  simp only [List.map_cons, List.cons.injEq, length_encodeU64, true_and, map_length_tagged]

/-- **What a signature and a hash bind.**  Votes with one signing message are for the same
challenge, epoch and weights if and only if their challenge ids and their hotkeys, place by place,
have the same lengths; and so are weights with one hash, if SHA-256 tells their bytes apart. -/
theorem weight_vote_binds_iff (C : Crypto) :
    (∀ v w : ValidatorWeightVote F, v.signingMessage = w.signingMessage →
      ((v.challengeId = w.challengeId ∧ v.epoch = w.epoch ∧
          weightBits v.weights = weightBits w.weights) ↔
        (utf8 v.challengeId).length = (utf8 w.challengeId).length ∧
          textLengths (weightBits v.weights) = textLengths (weightBits w.weights))) ∧
    ∀ ws ws' : List (String × F), C.Separates [weightBytes ws, weightBytes ws'] →
      StoredWeights.computeHash C ws = StoredWeights.computeHash C ws' →
      (weightBits ws = weightBits ws' ↔
        textLengths (weightBits ws) = textLengths (weightBits ws')) := by
  refine ⟨fun v w h => ?_, fun ws ws' hsp h => ?_⟩
  · rw [← ValidatorWeightVote.fields_inj, ← ValidatorWeightVote.map_length_fields]
    exact flatten_eq_iff h
  · have hby : weightBytes ws = weightBytes ws' :=
      hsp _ List.mem_cons_self _ (List.mem_cons_of_mem _ List.mem_cons_self) h
    rw [← tagged_inj, flatten_eq_iff hby, map_length_tagged]

end

def sampleVote (validator : String) (weights : List (String × ℚ)) : ValidatorWeightVote ℚ :=
  .new 0 validator "c" 1 weights [] 5

def twoWeights : List (String × ℚ) := [("a", 0), ("b", 1)]

/-- a hotkey that holds the bytes of a weight -/
def oneWeight : List (String × ℚ) := [("a\x00\x00\x00\x00\x00\x00\x00\x00b", 1)]

/-- Two validators sign the same weights; two entries and one entry have the same bytes, and the
lengths tell them apart. -/
theorem weight_vote_binds_pair :
    ((sampleVote "v" twoWeights).challengeId = (sampleVote "w" twoWeights).challengeId ∧
      (sampleVote "v" twoWeights).epoch = (sampleVote "w" twoWeights).epoch ∧
      weightBits (sampleVote "v" twoWeights).weights =
        weightBits (sampleVote "w" twoWeights).weights) ∧
    weightBits twoWeights ≠ weightBits oneWeight := by
  obtain ⟨hvt, hh⟩ := weight_vote_binds_iff (F := ℚ) sampleCrypto
  refine ⟨(hvt (sampleVote "v" twoWeights) (sampleVote "w" twoWeights) rfl).mpr ⟨rfl, rfl⟩, ?_⟩
  intro hs
  have hln := (hh twoWeights oneWeight (by decide +kernel) (by decide +kernel)).mp hs
  exact absurd hln (by decide +kernel)

theorem weight_vote_not_bound :
    (¬ ∀ v w : ValidatorWeightVote ℚ, v.signingMessage = w.signingMessage →
      weightBits v.weights = weightBits w.weights) ∧
    ¬ ∀ (C : Crypto) (ws ws' : List (String × ℚ)), C.Separates [weightBytes ws, weightBytes ws'] →
      StoredWeights.computeHash C ws = StoredWeights.computeHash C ws' →
      weightBits ws = weightBits ws' := by
  have hdf : weightBits twoWeights ≠ weightBits oneWeight := fun h =>
    absurd (congrArg List.length h) (by decide)
  constructor
  · intro h
    exact hdf (h (sampleVote "v" twoWeights) (sampleVote "v" oneWeight) (by decide +kernel))
  · intro h
    exact hdf (h sampleCrypto twoWeights oneWeight (by decide +kernel) (by decide +kernel))

end Platform.Storage
