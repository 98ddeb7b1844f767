import Platform.Core.Crypto
import Platform.Lib.Binary

/-!
# The chain state of the core crate and its layout (`types.rs`, `challenge.rs`, `state.rs`)

Each type comes with the codec that `#[derive(Serialize, Deserialize)]` gives it under bincode: the
fields in the order of their declaration.

* An `f64` is its bit pattern: nothing here computes with one.
-/

namespace Platform.Chain
open Platform.Core Lib

/-- `chrono::DateTime<Utc>`: how it is written (RFC 3339) and read -/
structure DateFormat (T : Type) where
  text : T → String
  parse : String → Except String T

/-- A date that was written is read back. -/
def DateFormat.Lawful {T : Type} (fmt : DateFormat T) : Prop := ∀ t, fmt.parse (fmt.text t) = .ok t

abbrev F64Bits := UInt64
abbrev BlockHeight := UInt64
abbrev Stake := UInt64
abbrev HashSet (κ : Type) := HashMap κ Unit

structure Uuid where
  bytes : Bytes
  len : bytes.length = 16

instance : DecidableEq Uuid := fun a b =>
  decidable_of_iff (a.bytes = b.bytes) (by
    cases a
    cases b
    simp)

abbrev ChallengeId := Uuid

structure NetworkConfig where
  subnetId : UInt16
  minStake : Stake
  consensusThreshold : F64Bits
  blockTimeMs : UInt64
  maxValidators : UInt64
  evaluationTimeoutSecs : UInt64
deriving DecidableEq

def NetworkConfig.default : NetworkConfig where
  subnetId := 100
  minStake := 1000000000
  -- the bits of `0.50`
  consensusThreshold := 0x3FE0000000000000
  blockTimeMs := 12000
  maxValidators := 64
  evaluationTimeoutSecs := 300

structure ValidatorInfo (T : Type) where
  hotkey : Hotkey
  stake : Stake
  isActive : Bool
  lastSeen : T
  peerId : Option String
  x25519Pubkey : Option String
deriving DecidableEq

structure ChallengeConfig where
  mechanismId : UInt8
  timeoutSecs : UInt64
  maxMemoryMb : UInt64
  maxCpuSecs : UInt64
  emissionWeight : F64Bits
  minValidators : UInt64
  paramsJson : String
deriving DecidableEq

structure Challenge (T : Type) where
  id : ChallengeId
  name : String
  description : String
  wasmCode : Bytes
  codeHash : String
  owner : Hotkey
  config : ChallengeConfig
  createdAt : T
  updatedAt : T
  isActive : Bool
deriving DecidableEq

structure ChallengeContainerConfig where
  challengeId : ChallengeId
  name : String
  dockerImage : String
  mechanismId : UInt8
  emissionWeight : F64Bits
  timeoutSecs : UInt64
  cpuCores : F64Bits
  memoryMb : UInt64
  gpuRequired : Bool
deriving DecidableEq

structure MechanismWeightConfig where
  mechanismId : UInt8
  baseBurnRate : F64Bits
  equalDistribution : Bool
  minWeightThreshold : F64Bits
  maxWeightCap : F64Bits
  active : Bool
deriving DecidableEq

structure ChallengeWeightAllocation where
  challengeId : ChallengeId
  mechanismId : UInt8
  weightRatio : F64Bits
  active : Bool
deriving DecidableEq

structure RequiredVersion where
  minVersion : String
  recommendedVersion : String
  dockerImage : String
  mandatory : Bool
  deadlineBlock : Option UInt64
deriving DecidableEq

structure Score where
  value : F64Bits
  weight : F64Bits
deriving DecidableEq

inductive JobStatus where
  | pending
  | running
  | completed
  | failed
  | timeout
deriving DecidableEq

structure Job (T : Type) where
  id : Uuid
  challengeId : ChallengeId
  agentHash : String
  status : JobStatus
  createdAt : T
  assignedValidator : Option Hotkey
  result : Option Score
deriving DecidableEq

structure StateFields (ι T : Type) where
  blockHeight : BlockHeight
  epoch : UInt64
  config : NetworkConfig
  sudoKey : Hotkey
  validators : HashMap Hotkey ι
  challenges : HashMap ChallengeId (Challenge T)
  challengeConfigs : HashMap ChallengeId ChallengeContainerConfig
  mechanismConfigs : HashMap UInt8 MechanismWeightConfig
  challengeWeights : HashMap ChallengeId ChallengeWeightAllocation
  requiredVersion : Option RequiredVersion
  pendingJobs : List (Job T)
  stateHash : Bytes32
  lastUpdated : T
deriving DecidableEq

structure ChainState (T : Type) extends StateFields (ValidatorInfo T) T where
  registeredHotkeys : HashSet Hotkey
deriving DecidableEq

/-! ## layouts -/

namespace Layout
open BinCodec

def bytes32 : BinCodec Bytes32 := iso (array 32) (fun b => ⟨b.bytes, b.len⟩) fun b => ⟨b.1, b.2⟩

def hotkey : BinCodec Hotkey := iso bytes32 Hotkey.key Hotkey.mk

def uuid : BinCodec Uuid :=
  through bytes Uuid.bytes fun b =>
    if h : b.length = 16 then .ok ⟨b, h⟩
    else .error (.custom ("UUID parsing failed: invalid length: expected 16 bytes, found " ++
      b.length.repr))

def dateTime {T : Type} (fmt : DateFormat T) : BinCodec T :=
  through string fmt.text fun s =>
    match fmt.parse s with
    | .ok t => .ok t
    | .error e => .error (.custom e)

def networkConfig : BinCodec NetworkConfig :=
  iso (pair u16 (pair u64 (pair u64 (pair u64 (pair u64 u64)))))
    (fun c => (c.subnetId, c.minStake, c.consensusThreshold, c.blockTimeMs, c.maxValidators,
      c.evaluationTimeoutSecs))
    fun (a, b, c, d, e, f) => ⟨a, b, c, d, e, f⟩

def validatorInfo {T : Type} (fmt : DateFormat T) : BinCodec (ValidatorInfo T) :=
  iso (pair hotkey (pair u64 (pair bool (pair (dateTime fmt)
      (pair (option string) (option string))))))
    (fun v => (v.hotkey, v.stake, v.isActive, v.lastSeen, v.peerId, v.x25519Pubkey))
    fun (a, b, c, d, e, f) => ⟨a, b, c, d, e, f⟩

def challengeConfig : BinCodec ChallengeConfig :=
  iso (pair u8 (pair u64 (pair u64 (pair u64 (pair u64 (pair u64 string))))))
    (fun c => (c.mechanismId, c.timeoutSecs, c.maxMemoryMb, c.maxCpuSecs, c.emissionWeight,
      c.minValidators, c.paramsJson))
    fun (a, b, c, d, e, f, g) => ⟨a, b, c, d, e, f, g⟩

def challenge {T : Type} (fmt : DateFormat T) : BinCodec (Challenge T) :=
  iso (pair uuid (pair string (pair string (pair bytes (pair string (pair hotkey
      (pair challengeConfig (pair (dateTime fmt) (pair (dateTime fmt) bool)))))))))
    (fun c => (c.id, c.name, c.description, c.wasmCode, c.codeHash, c.owner, c.config, c.createdAt,
      c.updatedAt, c.isActive))
    fun (a, b, c, d, e, f, g, h, i, j) => ⟨a, b, c, d, e, f, g, h, i, j⟩

def challengeContainerConfig : BinCodec ChallengeContainerConfig :=
  iso (pair uuid (pair string (pair string (pair u8 (pair u64 (pair u64 (pair u64
      (pair u64 bool))))))))
    (fun c => (c.challengeId, c.name, c.dockerImage, c.mechanismId, c.emissionWeight, c.timeoutSecs,
      c.cpuCores, c.memoryMb, c.gpuRequired))
    fun (a, b, c, d, e, f, g, h, i) => ⟨a, b, c, d, e, f, g, h, i⟩

def mechanismWeightConfig : BinCodec MechanismWeightConfig :=
  iso (pair u8 (pair u64 (pair bool (pair u64 (pair u64 bool)))))
    (fun c => (c.mechanismId, c.baseBurnRate, c.equalDistribution, c.minWeightThreshold,
      c.maxWeightCap, c.active))
    fun (a, b, c, d, e, f) => ⟨a, b, c, d, e, f⟩

def challengeWeightAllocation : BinCodec ChallengeWeightAllocation :=
  iso (pair uuid (pair u8 (pair u64 bool)))
    (fun a => (a.challengeId, a.mechanismId, a.weightRatio, a.active))
    fun (a, b, c, d) => ⟨a, b, c, d⟩

def requiredVersion : BinCodec RequiredVersion :=
  iso (pair string (pair string (pair string (pair bool (option u64)))))
    (fun v => (v.minVersion, v.recommendedVersion, v.dockerImage, v.mandatory, v.deadlineBlock))
    fun (a, b, c, d, e) => ⟨a, b, c, d, e⟩

def score : BinCodec Score := iso (pair u64 u64) (fun s => (s.value, s.weight)) fun (a, b) => ⟨a, b⟩

def jobStatusOf : Nat → JobStatus
  | 0 => .pending
  | 1 => .running
  | 2 => .completed
  | 3 => .failed
  | _ => .timeout

def jobStatusIndex : JobStatus → Nat
  | .pending => 0
  | .running => 1
  | .completed => 2
  | .failed => 3
  | .timeout => 4

def jobStatus : BinCodec JobStatus :=
  enumeration jobStatusIndex 5 (fun _ => []) fun i bs => .ok (jobStatusOf i, bs)

def job {T : Type} (fmt : DateFormat T) : BinCodec (Job T) :=
  iso (pair uuid (pair uuid (pair string (pair jobStatus (pair (dateTime fmt)
      (pair (option hotkey) (option score)))))))
    (fun j => (j.id, j.challengeId, j.agentHash, j.status, j.createdAt, j.assignedValidator,
      j.result))
    fun (a, b, c, d, e, f, g) => ⟨a, b, c, d, e, f, g⟩

/-- what stands before the validators: all of it of a fixed width -/
def stateHead : BinCodec (BlockHeight × UInt64 × NetworkConfig × Hotkey) :=
  pair u64 (pair u64 (pair networkConfig hotkey))

abbrev StateTail (T : Type) :=
  HashMap ChallengeId (Challenge T) × HashMap ChallengeId ChallengeContainerConfig ×
    HashMap UInt8 MechanismWeightConfig × HashMap ChallengeId ChallengeWeightAllocation ×
    Option RequiredVersion × List (Job T) × Bytes32 × T

/-- what stands after them -/
def stateTail {T : Type} (fmt : DateFormat T) : BinCodec (StateTail T) :=
  pair (map uuid (challenge fmt)) (pair (map uuid challengeContainerConfig)
    (pair (map u8 mechanismWeightConfig) (pair (map uuid challengeWeightAllocation)
      (pair (option requiredVersion) (pair (list (job fmt)) (pair bytes32 (dateTime fmt)))))))

def stateFields {ι T : Type} (info : BinCodec ι) (fmt : DateFormat T) :
    BinCodec (StateFields ι T) :=
  iso (pair stateHead (pair (map hotkey info) (stateTail fmt)))
    (fun s => ((s.blockHeight, s.epoch, s.config, s.sudoKey), s.validators, s.challenges,
      s.challengeConfigs, s.mechanismConfigs, s.challengeWeights, s.requiredVersion, s.pendingJobs,
      s.stateHash, s.lastUpdated))
    fun ((a, b, c, d), e, f, g, h, i, j, k, l, m) => ⟨a, b, c, d, e, f, g, h, i, j, k, l, m⟩

def chainState {T : Type} (fmt : DateFormat T) : BinCodec (ChainState T) :=
  iso (pair (stateFields (validatorInfo fmt) fmt) (set hotkey))
    (fun s => (s.toStateFields, s.registeredHotkeys)) fun (a, b) => ⟨a, b⟩

/-! ## what is written is read back -/

theorem lawful_bytes32 : bytes32.Lawful := lawful_iso (lawful_array (by decide)) fun _ => rfl

theorem canonical_bytes32 : bytes32.Canonical := canonical_iso (canonical_array 32) fun _ => rfl

theorem lawful_hotkey : hotkey.Lawful := lawful_iso lawful_bytes32 fun _ => rfl

theorem canonical_hotkey : hotkey.Canonical := canonical_iso canonical_bytes32 fun _ => rfl

theorem lawful_uuid : uuid.Lawful := lawful_through lawful_bytes fun x => dif_pos x.len

theorem lawful_networkConfig : networkConfig.Lawful :=
  lawful_iso (lawful_pair lawful_u16 (lawful_pair lawful_u64 (lawful_pair lawful_u64
    (lawful_pair lawful_u64 (lawful_pair lawful_u64 lawful_u64))))) fun _ => rfl

theorem canonical_networkConfig : networkConfig.Canonical :=
  canonical_iso (canonical_pair canonical_u16 (canonical_pair canonical_u64
    (canonical_pair canonical_u64 (canonical_pair canonical_u64
      (canonical_pair canonical_u64 canonical_u64))))) fun _ => rfl

theorem lawful_challengeConfig : challengeConfig.Lawful :=
  lawful_iso (lawful_pair lawful_u8 (lawful_pair lawful_u64 (lawful_pair lawful_u64
    (lawful_pair lawful_u64 (lawful_pair lawful_u64 (lawful_pair lawful_u64 lawful_string))))))
    fun _ => rfl

theorem lawful_challengeContainerConfig : challengeContainerConfig.Lawful :=
  lawful_iso (lawful_pair lawful_uuid (lawful_pair lawful_string (lawful_pair lawful_string
    (lawful_pair lawful_u8 (lawful_pair lawful_u64 (lawful_pair lawful_u64 (lawful_pair lawful_u64
      (lawful_pair lawful_u64 lawful_bool)))))))) fun _ => rfl

theorem lawful_mechanismWeightConfig : mechanismWeightConfig.Lawful :=
  lawful_iso (lawful_pair lawful_u8 (lawful_pair lawful_u64 (lawful_pair lawful_bool
    (lawful_pair lawful_u64 (lawful_pair lawful_u64 lawful_bool))))) fun _ => rfl

theorem lawful_challengeWeightAllocation : challengeWeightAllocation.Lawful :=
  lawful_iso (lawful_pair lawful_uuid (lawful_pair lawful_u8 (lawful_pair lawful_u64 lawful_bool)))
    fun _ => rfl

theorem lawful_requiredVersion : requiredVersion.Lawful :=
  lawful_iso (lawful_pair lawful_string (lawful_pair lawful_string (lawful_pair lawful_string
    (lawful_pair lawful_bool (lawful_option lawful_u64))))) fun _ => rfl

theorem lawful_score : score.Lawful := lawful_iso (lawful_pair lawful_u64 lawful_u64) fun _ => rfl

theorem lawful_jobStatus : jobStatus.Lawful := by
  refine lawful_enumeration (by decide) ?_ ?_
  · intro x
    cases x <;> decide
  · intro x rest _
    cases x <;> rfl

theorem lawful_stateHead : stateHead.Lawful :=
  lawful_pair lawful_u64 (lawful_pair lawful_u64 (lawful_pair lawful_networkConfig lawful_hotkey))

theorem canonical_stateHead : stateHead.Canonical :=
  canonical_pair canonical_u64 (canonical_pair canonical_u64
    (canonical_pair canonical_networkConfig canonical_hotkey))

section
variable {T : Type} {fmt : DateFormat T} (hf : fmt.Lawful)
include hf

theorem lawful_dateTime : (dateTime fmt).Lawful :=
  lawful_through lawful_string fun t => by rw [hf t]

theorem lawful_validatorInfo : (validatorInfo fmt).Lawful :=
  lawful_iso (lawful_pair lawful_hotkey (lawful_pair lawful_u64 (lawful_pair lawful_bool
    (lawful_pair (lawful_dateTime hf)
      (lawful_pair (lawful_option lawful_string) (lawful_option lawful_string)))))) fun _ => rfl

theorem lawful_challenge : (challenge fmt).Lawful :=
  lawful_iso (lawful_pair lawful_uuid (lawful_pair lawful_string (lawful_pair lawful_string
    (lawful_pair lawful_bytes (lawful_pair lawful_string (lawful_pair lawful_hotkey
      (lawful_pair lawful_challengeConfig (lawful_pair (lawful_dateTime hf)
        (lawful_pair (lawful_dateTime hf) lawful_bool))))))))) fun _ => rfl

theorem lawful_job : (job fmt).Lawful :=
  lawful_iso (lawful_pair lawful_uuid (lawful_pair lawful_uuid (lawful_pair lawful_string
    (lawful_pair lawful_jobStatus (lawful_pair (lawful_dateTime hf)
      (lawful_pair (lawful_option lawful_hotkey) (lawful_option lawful_score))))))) fun _ => rfl

theorem lawful_stateTail : (stateTail fmt).Lawful :=
  lawful_pair (lawful_map lawful_uuid (lawful_challenge hf))
    (lawful_pair (lawful_map lawful_uuid lawful_challengeContainerConfig)
      (lawful_pair (lawful_map lawful_u8 lawful_mechanismWeightConfig)
        (lawful_pair (lawful_map lawful_uuid lawful_challengeWeightAllocation)
          (lawful_pair (lawful_option lawful_requiredVersion)
            (lawful_pair (lawful_list (lawful_job hf))
              (lawful_pair lawful_bytes32 (lawful_dateTime hf)))))))

theorem lawful_stateFields {ι : Type} {info : BinCodec ι} (hif : info.Lawful) :
    (stateFields info fmt).Lawful :=
  lawful_iso (lawful_pair lawful_stateHead
    (lawful_pair (lawful_map lawful_hotkey hif) (lawful_stateTail hf))) fun _ => rfl

theorem lawful_chainState : (chainState fmt).Lawful :=
  lawful_iso (lawful_pair (lawful_stateFields hf (lawful_validatorInfo hf))
    (lawful_set lawful_hotkey)) fun _ => rfl

end

end Layout

end Platform.Chain
