import Platform.Consensus.Messages
import Platform.Lib.Assoc
import Platform.Lib.Count
import Mathlib.Data.List.Sort

/-!
# Validators, quorums and leaders (`crates/p2p-consensus/src/validator.rs`)

`ValidatorSet` keeps every record under its own hotkey (`keyed`).  The clock enters as `now` (unix
millis).
-/

namespace Platform.Consensus
open Lib Platform.Core

inductive ValidatorError where
  | notFound (hotkey : String)
  | insufficientStake (required actual : UInt64)
  | invalidSignature
deriving DecidableEq

def ValidatorError.display : ValidatorError → String
  | .notFound h => "Validator not found: " ++ h
  | .insufficientStake required actual =>
    "Insufficient stake: required " ++ toString required.toNat ++ ", has " ++ toString actual.toNat
  | .invalidSignature => "Invalid signature from validator"

structure ValidatorRecord where
  hotkey : Hotkey
  stake : UInt64
  peerId : Option String
  addresses : List String
  lastSeen : Int
  stateHash : Bytes32
  lastSequence : SequenceNumber
  isActive : Bool
  protocolVersion : String
deriving DecidableEq

def zeroHash : Bytes32 := ⟨List.replicate 32 0, rfl⟩

def ValidatorRecord.new (now : Int) (hotkey : Hotkey) (stake : UInt64) : ValidatorRecord where
  hotkey := hotkey
  stake := stake
  peerId := none
  addresses := []
  lastSeen := now
  stateHash := zeroHash
  lastSequence := 0
  isActive := true
  protocolVersion := ""

def ValidatorRecord.isStale (now : Int) (r : ValidatorRecord) (thresholdMs : Int) : Bool :=
  decide (now - r.lastSeen > thresholdMs)

structure ValidatorSet where
  validators : HashMap Hotkey ValidatorRecord
  minStake : UInt64
  localKeypair : Keypair
  staleThresholdMs : Int
  verifiedStakes : HashMap Hotkey UInt64
  keyed : ∀ k r, validators.lookup k = some r → r.hotkey = k

namespace ValidatorSet

def new (localKeypair : Keypair) (minStake : UInt64) : ValidatorSet where
  validators := ∅
  minStake := minStake
  localKeypair := localKeypair
  staleThresholdMs := 90000
  verifiedStakes := ∅
  keyed := by
    intro k r h
    rw [AList.lookup_empty] at h
    cases h

def mergeRecord (existing record : ValidatorRecord) : ValidatorRecord :=
  { existing with
    stake := record.stake
    peerId := record.peerId.or existing.peerId
    addresses := if record.addresses = [] then existing.addresses else record.addresses
    lastSeen := record.lastSeen
    isActive := true }

variable (vs : ValidatorSet) (now : Int)

def registered (record : ValidatorRecord) : ValidatorRecord :=
  match vs.validators.lookup record.hotkey with
  | some existing => mergeRecord existing record
  | none => record

theorem registered_hotkey (rd : ValidatorRecord) : (vs.registered rd).hotkey = rd.hotkey := by
  unfold registered
  cases h : vs.validators.lookup rd.hotkey with
  | none => rfl
  | some old =>
    show old.hotkey = rd.hotkey
    exact vs.keyed _ _ h

def registerValidator (record : ValidatorRecord) : Except ValidatorError ValidatorSet :=
  if record.stake < vs.minStake then .error (.insufficientStake vs.minStake record.stake)
  else .ok
    { vs with
      validators := vs.validators.insert record.hotkey (vs.registered record)
      keyed := by
        intro k r h
        rcases (HashMap.lookup_insert_iff _ _ _ _ _).mp h with ⟨rfl, rfl⟩ | ⟨_, h'⟩
        · exact vs.registered_hotkey record
        · exact vs.keyed k r h' }

/-- `update_validator_set_from_metagraph` of the node: neurons `(hotkey, stake)` with a `u128` stake
are registered with the stake capped at `u64::MAX`; a refused registration is skipped. -/
def updateFromMetagraph (now : Int) : ValidatorSet → List (Hotkey × Nat) → ValidatorSet
  | vs, [] => vs
  | vs, (hotkey, stake) :: neurons =>
    match vs.registerValidator (.new now hotkey (UInt64.ofNat (min stake (2 ^ 64 - 1)))) with
    | .ok vs' => updateFromMetagraph now vs' neurons
    | .error _ => updateFromMetagraph now vs neurons

def isValidator (hotkey : Hotkey) : Bool := decide (hotkey ∈ vs.validators)

/-- the filter of `active_validators`, `active_count` and `validators_by_stake` -/
def active (r : ValidatorRecord) : Bool :=
  r.isActive && !r.isStale now vs.staleThresholdMs

def activeValidators : List ValidatorRecord :=
  vs.validators.values.filter (vs.active now)

def activeCount : Nat := (vs.activeValidators now).length

def faultTolerance : Nat :=
  if vs.activeCount now = 0 then 0 else (vs.activeCount now - 1) / 3

def quorumSize : Nat := 2 * vs.faultTolerance now + 1

/-- the order of `validators_by_stake`: larger stake first, ties by hotkey -/
def stakeBefore (a b : ValidatorRecord) : Prop :=
  b.stake < a.stake ∨ a.stake = b.stake ∧ a.hotkey.key.bytes ≤ b.hotkey.key.bytes

instance : DecidableRel stakeBefore := fun _ _ => inferInstanceAs (Decidable (_ ∨ _))

def validatorsByStake : List ValidatorRecord :=
  (vs.activeValidators now).insertionSort stakeBefore

def leaderForView (view : ViewNumber) : Option Hotkey :=
  ((vs.validatorsByStake now)[view.toNat % (vs.validatorsByStake now).length]?).map
    ValidatorRecord.hotkey

def isLeader (hotkey : Hotkey) (view : ViewNumber) : Bool :=
  decide (vs.leaderForView now view = some hotkey)

def amILeader (view : ViewNumber) : Bool :=
  vs.isLeader now vs.localKeypair.hotkey view

def verifySignature (C : Crypto) (vs : ValidatorSet) (hotkey : Hotkey) (message signature : Bytes) :
    Except ValidatorError Bool :=
  if vs.isValidator hotkey then
    match (SignedMessage.mk message signature hotkey).verify C with
    | .ok valid => .ok valid
    | .error _ => .error .invalidSignature
  else .error (.notFound hotkey.toHex)

theorem verifySignature_ok_iff (C : Crypto) (vs : ValidatorSet) (k : Hotkey) (m sig : Bytes)
    (b : Bool) : vs.verifySignature C k m sig = .ok b ↔
      k ∈ vs.validators ∧ sig.length = 64 ∧ C.verify sig m k = b := by
  unfold verifySignature isValidator SignedMessage.verify
  by_cases hk : k ∈ vs.validators
  · by_cases hl : sig.length = 64
    · simp [hk, hl]
    · simp [hk, hl]
  · simp [hk]

/-! ## quorum intersection -/

def activeHotkeys : Finset Hotkey :=
  ((vs.activeValidators now).map ValidatorRecord.hotkey).toFinset

theorem activeHotkeys_nodup : ((vs.activeValidators now).map ValidatorRecord.hotkey).Nodup := by
  have hk : vs.validators.values.map ValidatorRecord.hotkey = vs.validators.keys := by
    simp only [HashMap.values, AList.keys, List.keys, List.map_map]
    apply List.map_congr_left
    rintro ⟨k, r⟩ hp
    exact vs.keyed k r ((HashMap.lookup_iff_mem _ _ _).mpr hp)
  have hsb : List.Sublist ((vs.activeValidators now).map ValidatorRecord.hotkey)
      (vs.validators.values.map ValidatorRecord.hotkey) := List.filter_sublist.map _
  rw [hk] at hsb
  exact hsb.nodup vs.validators.keys_nodup

theorem card_activeHotkeys : (vs.activeHotkeys now).card = vs.activeCount now := by
  rw [activeHotkeys, List.toFinset_card_of_nodup (vs.activeHotkeys_nodup now), List.length_map,
    activeCount]

theorem quorumSize_le (hn : 1 ≤ vs.activeCount now) : vs.quorumSize now ≤ vs.activeCount now := by
  have h0 : vs.activeCount now ≠ 0 := by omega
  rw [quorumSize, faultTolerance, if_neg h0]
  omega

/-- **Two quorums share more than `f` validators exactly when `n = 3f + 1`.** -/
theorem quorum_intersection_iff (vs : ValidatorSet) (now : Int) (hn : 1 ≤ vs.activeCount now) :
    (∀ A B : Finset Hotkey, A ⊆ vs.activeHotkeys now → B ⊆ vs.activeHotkeys now →
        vs.quorumSize now ≤ A.card → vs.quorumSize now ≤ B.card →
        vs.faultTolerance now < (A ∩ B).card) ↔
      vs.activeCount now % 3 = 1 := by
  have hq := vs.quorumSize_le now hn
  rw [← card_activeHotkeys] at hq
  rw [large_subsets_meet_iff _ _ _ hq, card_activeHotkeys]
  have h0 : vs.activeCount now ≠ 0 := by omega
  rw [quorumSize, faultTolerance, if_neg h0]
  omega

/-- `n` validators with stake 1000 and no minimum, as the node `me` holds them at time `0` -/
def sample (me : UInt8) (n : Nat) : ValidatorSet :=
  updateFromMetagraph 0 (new ⟨.ofByte me⟩ 0)
    ((List.range n).map fun i => (.ofByte (.ofNat i), 1000))

/-- Four validators are of the form `3f + 1`: here the intersection property holds. -/
theorem quorum_intersection_four : 1 ≤ (sample 0 4).activeCount 0 ∧
    ∀ A B : Finset Hotkey, A ⊆ (sample 0 4).activeHotkeys 0 → B ⊆ (sample 0 4).activeHotkeys 0 →
      (sample 0 4).quorumSize 0 ≤ A.card → (sample 0 4).quorumSize 0 ≤ B.card →
      (sample 0 4).faultTolerance 0 < (A ∩ B).card :=
  ⟨by decide +kernel,
    (quorum_intersection_iff (sample 0 4) 0 (by decide +kernel)).mpr (by decide +kernel)⟩

/-- **Two validators**: each of them alone is a quorum, and the two quorums share nobody. -/
theorem quorum_intersection_two_fails :
    ¬ ∀ (vs : ValidatorSet) (now : Int), 1 ≤ vs.activeCount now →
      ∀ A B : Finset Hotkey, A ⊆ vs.activeHotkeys now → B ⊆ vs.activeHotkeys now →
        vs.quorumSize now ≤ A.card → vs.quorumSize now ≤ B.card →
        vs.faultTolerance now < (A ∩ B).card := by
  intro h
  have h2 := h (sample 0 2) 0 (by decide +kernel) {.ofByte 0} {.ofByte 1} (by decide +kernel)
    (by decide +kernel) (by decide +kernel) (by decide +kernel)
  revert h2
  decide +kernel

end ValidatorSet

end Platform.Consensus
