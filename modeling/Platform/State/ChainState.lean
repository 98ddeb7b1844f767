import Platform.Core.F64
import Platform.Consensus.Validator

/-!
# The shared chain state (`crates/p2p-consensus/src/state.rs`)

Every operation reads the clock when it updates the hash; the reading `now` is an argument.
Counters are `u64` and wrap, as in a release build.  A loop over a map runs through its entries in
the order of the model, which is one of the orders that the code may take.
-/

namespace Platform.State
open Lib Platform.Core
open Consensus (zeroHash)

inductive StateError where
  | hashMismatch (expected actual : String)
  | sequenceTooOld (current received : UInt64)
  | challengeNotFound (id : String)
  | invalidSignature (msg : String)
deriving DecidableEq

structure ChallengeId where
  uuid : Bytes
  len : uuid.length = 16
deriving DecidableEq

structure ValidatorEvaluation (F : Type) where
  score : F
  -- what the validator reports; the score is weighted with the stake on record
  stake : UInt64
  timestamp : Int
  signature : Bytes
deriving DecidableEq

structure EvaluationRecord (F : Type) where
  submissionId : String
  challengeId : ChallengeId
  miner : Hotkey
  agentHash : String
  evaluations : HashMap Hotkey (ValidatorEvaluation F)
  aggregatedScore : Option F
  finalized : Bool
  createdAt : Int
  finalizedAt : Option Int
deriving DecidableEq

structure ChallengeConfig where
  id : ChallengeId
  name : String
  dockerImage : String
  weight : UInt16
  isActive : Bool
  creator : Hotkey
  createdAt : Int
deriving DecidableEq

/-- `Vec<(u16, u16)>`: uids and their weights -/
abbrev Weights := List (UInt16 × UInt16)

structure WeightVotes where
  epoch : UInt64
  netuid : UInt16
  votes : HashMap Hotkey Weights
  finalized : Bool
  finalWeights : Option Weights
deriving DecidableEq

structure ChainState (F : Type) where
  sequence : UInt64
  epoch : UInt64
  stateHash : Bytes32
  validators : HashMap Hotkey UInt64
  challenges : HashMap ChallengeId ChallengeConfig
  pendingEvaluations : HashMap String (EvaluationRecord F)
  completedEvaluations : HashMap UInt64 (List (EvaluationRecord F))
  weightVotes : Option WeightVotes
  historicalWeights : HashMap UInt64 Weights
  sudoKey : Hotkey
  netuid : UInt16
  lastUpdated : Int
  bittensorBlock : UInt64
  bittensorBlockHash : Bytes32
deriving DecidableEq

def sudoKeyBytes : Bytes32 :=
  ⟨[0xda, 0x22, 0x04, 0x09, 0x67, 0x8d, 0xf5, 0xf0, 0x60, 0x74, 0xa6, 0x71, 0xab, 0xdc, 0x1f, 0x19,
    0xbc, 0x2b, 0xa1, 0x51, 0x72, 0x9f, 0xdb, 0x9a, 0x8e, 0x4b, 0xe2, 0x84, 0xe6, 0x0c, 0x94, 0x01],
    rfl⟩

def evaluationSigningBytes {F : Type} [F64 F] (submissionId : String) (score : F) : Bytes :=
  encodeString submissionId ++ encodeU64 (F64.toBits score)

def encodeWeights (weights : Weights) : Bytes :=
  encodeVec (fun p => encodeU16 p.1 ++ encodeU16 p.2) weights

def weightVoteSigningBytes (epoch : UInt64) (netuid : UInt16) (weights : Weights) : Bytes :=
  encodeU64 epoch ++ encodeU16 netuid ++ encodeWeights weights

def checkSigned (C : Crypto) (validator : Hotkey) (message signature : Bytes) :
    Except StateError Unit :=
  match SignedMessage.verify C ⟨message, signature, validator⟩ with
  | .error e => .error (.invalidSignature e.display)
  | .ok false => .error (.invalidSignature validator.toHex)
  | .ok true => .ok ()

namespace ChainState
variable {F : Type}

variable (C : Crypto) (now : Int) (s : ChainState F)

protected def default : ChainState F where
  sequence := 0
  epoch := 0
  stateHash := zeroHash
  validators := ∅
  challenges := ∅
  pendingEvaluations := ∅
  completedEvaluations := ∅
  weightVotes := none
  historicalWeights := ∅
  sudoKey := ⟨sudoKeyBytes⟩
  netuid := 100
  lastUpdated := now
  bittensorBlock := 0
  bittensorBlockHash := zeroHash

def hashInput : Bytes :=
  encodeU64 s.sequence ++ encodeU64 s.epoch ++ encodeU64 (.ofNat s.validators.size) ++
    encodeU64 (.ofNat s.challenges.size) ++ encodeU64 (.ofNat s.pendingEvaluations.size) ++
    encodeU16 s.netuid

def updateHash : ChainState F :=
  { s with lastUpdated := now, stateHash := C.sha256 s.hashInput }

def incrementSequence : ChainState F :=
  updateHash C now { s with sequence := s.sequence + 1 }

def withSudo (sudoKey : Hotkey) (netuid : UInt16) : ChainState F :=
  updateHash C now { ChainState.default now with sudoKey := sudoKey, netuid := netuid }

protected def new (netuid : UInt16) : ChainState F :=
  withSudo C now ⟨sudoKeyBytes⟩ netuid

section
variable (C : Crypto) (now : Int) (s : ChainState F)

def linkToBittensorBlock (blockNumber : UInt64) (blockHash : Bytes32) : ChainState F :=
  incrementSequence C now
    { s with bittensorBlock := blockNumber, bittensorBlockHash := blockHash }

def updateValidator (hotkey : Hotkey) (stake : UInt64) : ChainState F :=
  incrementSequence C now { s with validators := s.validators.insert hotkey stake }

def removeValidator (hotkey : Hotkey) : Bool × ChainState F :=
  match s.validators.lookup hotkey with
  | some _ => (true, incrementSequence C now { s with validators := s.validators.erase hotkey })
  | none => (false, s)

def addChallenge (config : ChallengeConfig) : ChainState F :=
  incrementSequence C now { s with challenges := s.challenges.insert config.id config }

def removeChallenge (id : ChallengeId) : Option ChallengeConfig × ChainState F :=
  match s.challenges.lookup id with
  | some config =>
    (some config, incrementSequence C now { s with challenges := s.challenges.erase id })
  | none => (none, s)

def addEvaluation (record : EvaluationRecord F) : ChainState F :=
  -- a record under the same id is replaced
  incrementSequence C now
    { s with pendingEvaluations := s.pendingEvaluations.insert record.submissionId record }

def addValidatorEvaluation [F64 F] (submissionId : String) (validator : Hotkey)
    (evaluation : ValidatorEvaluation F) (signature : Bytes) :
    Except StateError Unit × ChainState F :=
  match checkSigned C validator (evaluationSigningBytes submissionId evaluation.score)
    signature with
  | .error e => (.error e, s)
  | .ok () =>
    match s.pendingEvaluations.lookup submissionId with
    | some record =>
      let record' := { record with evaluations := record.evaluations.insert validator evaluation }
      -- the hash is updated, the sequence stays as it is
      (.ok (), updateHash C now
        { s with pendingEvaluations := s.pendingEvaluations.insert submissionId record' })
    | none => (.error (.challengeNotFound submissionId), s)

/-- the loop body of `finalize_evaluation`: only validators on record count, with the stake on
record -/
def tallyScore [F64 F] (acc : UInt64 × F) (e : (_ : Hotkey) × ValidatorEvaluation F) : UInt64 × F :=
  match s.validators.lookup e.1 with
  | some stake => (acc.1 + stake, F64.add acc.2 (F64.mul e.2.score (F64.ofU64 stake)))
  | none => acc

def completed (record : EvaluationRecord F) (aggregated : F) (finalizedAt : Int) :
    EvaluationRecord F :=
  { record with
    aggregatedScore := some aggregated
    finalized := true
    finalizedAt := some finalizedAt }

def finalizeEvaluation [F64 F] (finalizedAt : Int) (submissionId : String) :
    Except StateError F × ChainState F :=
  match s.pendingEvaluations.lookup submissionId with
  | some record =>
    let (totalStake, weightedSum) := record.evaluations.entries.foldl s.tallyScore (0, F64.zero)
    -- no evaluation counts: the answer is zero and the record stays pending
    if totalStake = 0 then (.ok F64.zero, s)
    else
      let aggregated := F64.div weightedSum (F64.ofU64 totalStake)
      let epochRecords := (s.completedEvaluations.lookup s.epoch).getD []
      (.ok aggregated, incrementSequence C now
        { s with
          pendingEvaluations := s.pendingEvaluations.erase submissionId
          completedEvaluations := s.completedEvaluations.insert s.epoch
            (epochRecords ++ [completed record aggregated finalizedAt]) })
  | none => (.error (.challengeNotFound submissionId), s)

def emptyVotes (epoch : UInt64) : WeightVotes := ⟨epoch, s.netuid, ∅, false, none⟩

def addWeightVoteVerified (validator : Hotkey) (weights : Weights) (epoch : UInt64)
    (signature : Bytes) : Except StateError Unit × ChainState F :=
  match checkSigned C validator (weightVoteSigningBytes epoch s.netuid weights) signature with
  | .error e => (.error e, s)
  | .ok () =>
    let votes := s.weightVotes.getD (s.emptyVotes epoch)
    if votes.epoch = epoch ∧ votes.finalized = false then
      (.ok (), updateHash C now
        { s with weightVotes := some { votes with votes := votes.votes.insert validator weights } })
    -- a vote that is not stored is no error
    else (.ok (), { s with weightVotes := some votes })

def addWeight [F64 F] (stake : UInt64) (acc : HashMap UInt16 F) (p : UInt16 × UInt16) :
    HashMap UInt16 F :=
  acc.insert p.1
    (F64.add ((acc.lookup p.1).getD F64.zero) (F64.mul (F64.ofU16 p.2) (F64.ofU64 stake)))

/-- the loop body of `finalize_weights`: votes without stake are passed over -/
def tallyVote [F64 F] (acc : UInt64 × HashMap UInt16 F) (vote : (_ : Hotkey) × Weights) :
    UInt64 × HashMap UInt16 F :=
  let stake := (s.validators.lookup vote.1).getD 0
  if stake = 0 then acc else (acc.1 + stake, vote.2.foldl (addWeight stake) acc.2)

def normalize [F64 F] (uidWeights : HashMap UInt16 F) : Weights :=
  let maxWeight := uidWeights.values.foldl F64.max F64.zero
  if F64.lt F64.zero maxWeight then
    -- the largest weight becomes `u16::MAX`
    uidWeights.pairs fun w => F64.toU16 (F64.mul (F64.div w maxWeight) (F64.ofU16 65535))
  else []

def finalizeWeights [F64 F] : Option Weights × ChainState F :=
  match s.weightVotes with
  | none => (none, s)
  | some votes =>
    if votes.finalized then (votes.finalWeights, s)
    else
      let (totalStake, uidWeights) :=
        votes.votes.entries.foldl s.tallyVote (0, (∅ : HashMap UInt16 F))
      if totalStake = 0 then (none, s)
      else
        let finalWeights := normalize uidWeights
        (some finalWeights, incrementSequence C now
          { s with
            weightVotes := some { votes with finalWeights := some finalWeights, finalized := true }
            historicalWeights := s.historicalWeights.insert votes.epoch finalWeights })

end

def maxHistoricalEpochs : Nat := 100

def saturatingSub (x y : UInt64) : UInt64 := if x < y then 0 else x - y

/-- what `next_epoch` keeps of the history, in the new epoch `epoch` -/
def pruned (epoch : UInt64) (history : HashMap UInt64 Weights) : HashMap UInt64 Weights :=
  if maxHistoricalEpochs < history.size then
    history.retain fun e _ => decide (saturatingSub epoch (.ofNat maxHistoricalEpochs) < e)
  else history

def nextEpoch : ChainState F :=
  incrementSequence C now
    { s with
      epoch := s.epoch + 1
      -- with the votes goes the flag that says whether they were finalized
      weightVotes := none
      historicalWeights := pruned (s.epoch + 1) s.historicalWeights }

end ChainState

def applySyncState {F : Type} (C : Crypto) (now : Int) (current received : ChainState F) :
    Except StateError Unit × ChainState F :=
  if received.sequence ≤ current.sequence then
    (.error (.sequenceTooOld current.sequence received.sequence), current)
  else
    let verification := received.updateHash C now
    if verification.stateHash ≠ received.stateHash then
      (.error (.hashMismatch (hexEncode received.stateHash.bytes)
        (hexEncode verification.stateHash.bytes)), current)
    else (.ok (), received)

end Platform.State
