import Platform.Chain.Types

/-!
# Messages between nodes and their signatures (`crates/core/src/message.rs`)

`SignedNetworkMessage` carries the message twice: as a value, and as the bytes inside the signature.
`SignedNetworkMessage.verify` looks at the bytes only, and a message from the network has both
chosen by its sender.
-/

namespace Platform.Chain
open Platform.Core Lib

structure TaskProgressMessage where
  challengeId : String
  agentHash : String
  evaluationId : String
  taskId : String
  taskIndex : UInt32
  totalTasks : UInt32
  passed : Bool
  score : F64Bits
  executionTimeMs : UInt64
  costUsd : F64Bits
  error : Option String
  validatorHotkey : String
  timestamp : UInt64
deriving DecidableEq

inductive ChallengeMessageType where
  | encryptedSubmission
  | submissionAck
  | keyReveal
  | evaluationResult
  | requestEvaluations
  | evaluationsResponse
  | weightResult
  | storageWrite
  | storageRequest
  | storageResponse
  | storageSync
  | custom (kind : String)
deriving DecidableEq

structure ChallengeNetworkMessage where
  challengeId : String
  payload : Bytes
  messageType : ChallengeMessageType
deriving DecidableEq

structure AgentSubmissionMessage (T : Type) where
  challengeId : String
  agentHash : String
  minerHotkey : String
  sourceCode : Option String
  obfuscatedHash : Option String
  submittedAt : T
  submittingValidator : Hotkey
  minerSignature : Bytes
  sourceCodeLen : UInt64
deriving DecidableEq

structure HandshakeMessage (T : Type) where
  hotkey : Hotkey
  blockHeight : BlockHeight
  stateHash : Bytes32
  version : String
  versionMajor : UInt32
  versionMinor : UInt32
  versionPatch : UInt32
  timestamp : T
deriving DecidableEq

inductive SudoAction (T : Type) where
  | updateConfig (config : NetworkConfig)
  | addChallenge (config : ChallengeContainerConfig)
  | updateChallenge (config : ChallengeContainerConfig)
  | removeChallenge (id : ChallengeId)
  | refreshChallenges (challengeId : Option ChallengeId)
  | setChallengeWeight (challengeId : ChallengeId) (mechanismId : UInt8) (weightRatio : F64Bits)
  | setMechanismBurnRate (mechanismId : UInt8) (burnRate : F64Bits)
  | setMechanismConfig (mechanismId : UInt8) (config : MechanismWeightConfig)
  | setRequiredVersion (minVersion recommendedVersion dockerImage : String) (mandatory : Bool)
      (deadlineBlock : Option UInt64) (releaseNotes : Option String)
  | addValidator (info : ValidatorInfo T)
  | removeValidator (hotkey : Hotkey)
  | emergencyPause (reason : String)
  | resume
  | forceStateUpdate (state : ChainState T)
deriving DecidableEq

inductive ProposalAction (T : Type) where
  | sudoAction (action : SudoAction T)
  | newBlock (stateHash : Bytes32)
  | jobCompletion (jobId : Uuid) (result : Score) (validator : Hotkey)
deriving DecidableEq

structure Proposal (T : Type) where
  id : Uuid
  blockHeight : BlockHeight
  action : ProposalAction T
  proposer : Hotkey
  timestamp : T
deriving DecidableEq

structure Vote (T : Type) where
  proposalId : Uuid
  voter : Hotkey
  approve : Bool
  timestamp : T
deriving DecidableEq

structure JobAssignment (T : Type) where
  job : Job T
  assignedTo : Hotkey
  deadline : T
deriving DecidableEq

structure EvaluationResult (T : Type) where
  jobId : Uuid
  challengeId : ChallengeId
  agentHash : String
  score : Score
  executionTimeMs : UInt64
  validator : Hotkey
  timestamp : T
deriving DecidableEq

structure StateSnapshot (T : Type) where
  blockHeight : BlockHeight
  stateHash : Bytes32
  validatorCount : UInt64
  challengeCount : UInt64
  pendingJobs : UInt64
  timestamp : T
deriving DecidableEq

inductive SyncDataType where
  | validators
  | challenges
  | pendingJobs
  | config
deriving DecidableEq

inductive StateSyncMessage (T : Type) where
  | requestSnapshot
  | fullState (state : ChainState T)
  | snapshot (snapshot : StateSnapshot T)
  | requestData (dataType : SyncDataType)
  | dataResponse (dataType : SyncDataType) (data : Bytes)
deriving DecidableEq

structure HeartbeatMessage (T : Type) where
  hotkey : Hotkey
  blockHeight : BlockHeight
  stateHash : Bytes32
  timestamp : T
deriving DecidableEq

structure WeightCommitmentMessage (T : Type) where
  validator : Hotkey
  challengeId : ChallengeId
  epoch : UInt64
  commitmentHash : Bytes32
  timestamp : T
deriving DecidableEq

structure WeightEntry where
  agentHash : String
  weight : F64Bits
deriving DecidableEq

structure WeightRevealMessage (T : Type) where
  validator : Hotkey
  challengeId : ChallengeId
  epoch : UInt64
  weights : List WeightEntry
  secret : Bytes
  timestamp : T
deriving DecidableEq

structure EpochTransitionMessage (T : Type) where
  epoch : UInt64
  phase : String
  blockHeight : BlockHeight
  timestamp : T
deriving DecidableEq

inductive NetworkMessage (T : Type) where
  | handshake (m : HandshakeMessage T)
  | sudoAction (m : SudoAction T)
  | proposal (m : Proposal T)
  | vote (m : Vote T)
  | jobAssignment (m : JobAssignment T)
  | evaluationResult (m : EvaluationResult T)
  | stateSync (m : StateSyncMessage T)
  | heartbeat (m : HeartbeatMessage T)
  | weightCommitment (m : WeightCommitmentMessage T)
  | weightReveal (m : WeightRevealMessage T)
  | epochTransition (m : EpochTransitionMessage T)
  | agentSubmission (m : AgentSubmissionMessage T)
  | challengeMessage (m : ChallengeNetworkMessage)
  | taskProgress (m : TaskProgressMessage)
  | versionMismatch (ourVersion requiredMinVersion : String)
deriving DecidableEq

/-! ## layouts -/

namespace Layout
open BinCodec

def taskProgress : BinCodec TaskProgressMessage :=
  iso (pair string (pair string (pair string (pair string (pair u32 (pair u32 (pair bool (pair u64
      (pair u64 (pair u64 (pair (option string) (pair string u64))))))))))))
    (fun m => (m.challengeId, m.agentHash, m.evaluationId, m.taskId, m.taskIndex, m.totalTasks,
      m.passed, m.score, m.executionTimeMs, m.costUsd, m.error, m.validatorHotkey, m.timestamp))
    fun (a, b, c, d, e, f, g, h, i, j, k, l, m) => ⟨a, b, c, d, e, f, g, h, i, j, k, l, m⟩

def challengeMessageTypeIndex : ChallengeMessageType → Nat
  | .encryptedSubmission => 0
  | .submissionAck => 1
  | .keyReveal => 2
  | .evaluationResult => 3
  | .requestEvaluations => 4
  | .evaluationsResponse => 5
  | .weightResult => 6
  | .storageWrite => 7
  | .storageRequest => 8
  | .storageResponse => 9
  | .storageSync => 10
  | .custom _ => 11

def challengeMessageTypeVariant : Nat → Reader ChallengeMessageType
  | 0 => fun bs => .ok (.encryptedSubmission, bs)
  | 1 => fun bs => .ok (.submissionAck, bs)
  | 2 => fun bs => .ok (.keyReveal, bs)
  | 3 => fun bs => .ok (.evaluationResult, bs)
  | 4 => fun bs => .ok (.requestEvaluations, bs)
  | 5 => fun bs => .ok (.evaluationsResponse, bs)
  | 6 => fun bs => .ok (.weightResult, bs)
  | 7 => fun bs => .ok (.storageWrite, bs)
  | 8 => fun bs => .ok (.storageRequest, bs)
  | 9 => fun bs => .ok (.storageResponse, bs)
  | 10 => fun bs => .ok (.storageSync, bs)
  | _ => string.de.map .custom

def challengeMessageType : BinCodec ChallengeMessageType :=
  enumeration challengeMessageTypeIndex 12
    (fun
      | .custom kind => string.ser kind
      | _ => [])
    challengeMessageTypeVariant

def challengeNetworkMessage : BinCodec ChallengeNetworkMessage :=
  iso (pair string (pair bytes challengeMessageType))
    (fun m => (m.challengeId, m.payload, m.messageType)) fun (a, b, c) => ⟨a, b, c⟩

def syncDataTypeIndex : SyncDataType → Nat
  | .validators => 0
  | .challenges => 1
  | .pendingJobs => 2
  | .config => 3

def syncDataTypeOf : Nat → SyncDataType
  | 0 => .validators
  | 1 => .challenges
  | 2 => .pendingJobs
  | _ => .config

def syncDataType : BinCodec SyncDataType :=
  enumeration syncDataTypeIndex 4 (fun _ => []) fun i bs => .ok (syncDataTypeOf i, bs)

def weightEntry : BinCodec WeightEntry :=
  iso (pair string u64) (fun e => (e.agentHash, e.weight)) fun (a, b) => ⟨a, b⟩

section
variable {T : Type} (fmt : DateFormat T)

def agentSubmission : BinCodec (AgentSubmissionMessage T) :=
  iso (pair string (pair string (pair string (pair (option string) (pair (option string)
      (pair (dateTime fmt) (pair hotkey (pair bytes u64))))))))
    (fun m => (m.challengeId, m.agentHash, m.minerHotkey, m.sourceCode, m.obfuscatedHash,
      m.submittedAt, m.submittingValidator, m.minerSignature, m.sourceCodeLen))
    fun (a, b, c, d, e, f, g, h, i) => ⟨a, b, c, d, e, f, g, h, i⟩

def handshake : BinCodec (HandshakeMessage T) :=
  iso (pair hotkey (pair u64 (pair bytes32 (pair string (pair u32 (pair u32 (pair u32
      (dateTime fmt))))))))
    (fun m => (m.hotkey, m.blockHeight, m.stateHash, m.version, m.versionMajor, m.versionMinor,
      m.versionPatch, m.timestamp))
    fun (a, b, c, d, e, f, g, h) => ⟨a, b, c, d, e, f, g, h⟩

/-- the fields of `SudoAction::SetRequiredVersion` -/
def sudoRequiredVersion :
    BinCodec (String × String × String × Bool × Option UInt64 × Option String) :=
  pair string (pair string (pair string (pair bool (pair (option u64) (option string)))))

def sudoActionIndex : SudoAction T → Nat
  | .updateConfig _ => 0
  | .addChallenge _ => 1
  | .updateChallenge _ => 2
  | .removeChallenge _ => 3
  | .refreshChallenges _ => 4
  | .setChallengeWeight _ _ _ => 5
  | .setMechanismBurnRate _ _ => 6
  | .setMechanismConfig _ _ => 7
  | .setRequiredVersion _ _ _ _ _ _ => 8
  | .addValidator _ => 9
  | .removeValidator _ => 10
  | .emergencyPause _ => 11
  | .resume => 12
  | .forceStateUpdate _ => 13

def sudoActionBody : SudoAction T → Bytes
  | .updateConfig config => networkConfig.ser config
  | .addChallenge config => challengeContainerConfig.ser config
  | .updateChallenge config => challengeContainerConfig.ser config
  | .removeChallenge id => uuid.ser id
  | .refreshChallenges id => (option uuid).ser id
  | .setChallengeWeight id mechanism ratio => (pair uuid (pair u8 u64)).ser (id, mechanism, ratio)
  | .setMechanismBurnRate mechanism rate => (pair u8 u64).ser (mechanism, rate)
  | .setMechanismConfig mechanism config => (pair u8 mechanismWeightConfig).ser (mechanism, config)
  | .setRequiredVersion a b c d e f => sudoRequiredVersion.ser (a, b, c, d, e, f)
  | .addValidator info => (validatorInfo fmt).ser info
  | .removeValidator key => hotkey.ser key
  | .emergencyPause reason => string.ser reason
  | .resume => []
  | .forceStateUpdate state => (chainState fmt).ser state

def sudoActionVariant : Nat → Reader (SudoAction T)
  | 0 => networkConfig.de.map .updateConfig
  | 1 => challengeContainerConfig.de.map .addChallenge
  | 2 => challengeContainerConfig.de.map .updateChallenge
  | 3 => uuid.de.map .removeChallenge
  | 4 => (option uuid).de.map .refreshChallenges
  | 5 => (pair uuid (pair u8 u64)).de.map fun (a, b, c) => .setChallengeWeight a b c
  | 6 => (pair u8 u64).de.map fun (a, b) => .setMechanismBurnRate a b
  | 7 => (pair u8 mechanismWeightConfig).de.map fun (a, b) => .setMechanismConfig a b
  | 8 => sudoRequiredVersion.de.map fun (a, b, c, d, e, f) => .setRequiredVersion a b c d e f
  | 9 => (validatorInfo fmt).de.map .addValidator
  | 10 => hotkey.de.map .removeValidator
  | 11 => string.de.map .emergencyPause
  | 12 => fun bs => .ok (.resume, bs)
  | _ => (chainState fmt).de.map .forceStateUpdate

def sudoAction : BinCodec (SudoAction T) :=
  enumeration sudoActionIndex 14 (sudoActionBody fmt) (sudoActionVariant fmt)

def proposalAction : BinCodec (ProposalAction T) :=
  enumeration
    (fun
      | .sudoAction _ => 0
      | .newBlock _ => 1
      | .jobCompletion _ _ _ => 2)
    3
    (fun
      | .sudoAction action => (sudoAction fmt).ser action
      | .newBlock hash => bytes32.ser hash
      | .jobCompletion id result validator =>
        (pair uuid (pair Layout.score hotkey)).ser (id, result, validator))
    fun
      | 0 => (sudoAction fmt).de.map .sudoAction
      | 1 => bytes32.de.map .newBlock
      | _ => (pair uuid (pair Layout.score hotkey)).de.map fun (a, b, c) => .jobCompletion a b c

def proposal : BinCodec (Proposal T) :=
  iso (pair uuid (pair u64 (pair (proposalAction fmt) (pair hotkey (dateTime fmt)))))
    (fun p => (p.id, p.blockHeight, p.action, p.proposer, p.timestamp))
    fun (a, b, c, d, e) => ⟨a, b, c, d, e⟩

def vote : BinCodec (Vote T) :=
  iso (pair uuid (pair hotkey (pair bool (dateTime fmt))))
    (fun v => (v.proposalId, v.voter, v.approve, v.timestamp)) fun (a, b, c, d) => ⟨a, b, c, d⟩

def jobAssignment : BinCodec (JobAssignment T) :=
  iso (pair (job fmt) (pair hotkey (dateTime fmt))) (fun a => (a.job, a.assignedTo, a.deadline))
    fun (a, b, c) => ⟨a, b, c⟩

def evaluationResult : BinCodec (EvaluationResult T) :=
  iso (pair uuid (pair uuid (pair string (pair Layout.score (pair u64
      (pair hotkey (dateTime fmt)))))))
    (fun r => (r.jobId, r.challengeId, r.agentHash, r.score, r.executionTimeMs, r.validator,
      r.timestamp))
    fun (a, b, c, d, e, f, g) => ⟨a, b, c, d, e, f, g⟩

def stateSnapshot : BinCodec (StateSnapshot T) :=
  iso (pair u64 (pair bytes32 (pair u64 (pair u64 (pair u64 (dateTime fmt))))))
    (fun s => (s.blockHeight, s.stateHash, s.validatorCount, s.challengeCount, s.pendingJobs,
      s.timestamp))
    fun (a, b, c, d, e, f) => ⟨a, b, c, d, e, f⟩

def stateSync : BinCodec (StateSyncMessage T) :=
  enumeration
    (fun
      | .requestSnapshot => 0
      | .fullState _ => 1
      | .snapshot _ => 2
      | .requestData _ => 3
      | .dataResponse _ _ => 4)
    5
    (fun
      | .requestSnapshot => []
      | .fullState state => (chainState fmt).ser state
      | .snapshot snapshot => (stateSnapshot fmt).ser snapshot
      | .requestData dataType => syncDataType.ser dataType
      | .dataResponse dataType data => (pair syncDataType bytes).ser (dataType, data))
    fun
      | 0 => fun bs => .ok (.requestSnapshot, bs)
      | 1 => (chainState fmt).de.map .fullState
      | 2 => (stateSnapshot fmt).de.map .snapshot
      | 3 => syncDataType.de.map .requestData
      | _ => (pair syncDataType bytes).de.map fun (a, b) => .dataResponse a b

def heartbeat : BinCodec (HeartbeatMessage T) :=
  iso (pair hotkey (pair u64 (pair bytes32 (dateTime fmt))))
    (fun m => (m.hotkey, m.blockHeight, m.stateHash, m.timestamp)) fun (a, b, c, d) => ⟨a, b, c, d⟩

def weightCommitment : BinCodec (WeightCommitmentMessage T) :=
  iso (pair hotkey (pair uuid (pair u64 (pair bytes32 (dateTime fmt)))))
    (fun m => (m.validator, m.challengeId, m.epoch, m.commitmentHash, m.timestamp))
    fun (a, b, c, d, e) => ⟨a, b, c, d, e⟩

def weightReveal : BinCodec (WeightRevealMessage T) :=
  iso (pair hotkey (pair uuid (pair u64 (pair (list weightEntry) (pair bytes (dateTime fmt))))))
    (fun m => (m.validator, m.challengeId, m.epoch, m.weights, m.secret, m.timestamp))
    fun (a, b, c, d, e, f) => ⟨a, b, c, d, e, f⟩

def epochTransition : BinCodec (EpochTransitionMessage T) :=
  iso (pair u64 (pair string (pair u64 (dateTime fmt))))
    (fun m => (m.epoch, m.phase, m.blockHeight, m.timestamp)) fun (a, b, c, d) => ⟨a, b, c, d⟩

def networkMessageIndex : NetworkMessage T → Nat
  | .handshake _ => 0
  | .sudoAction _ => 1
  | .proposal _ => 2
  | .vote _ => 3
  | .jobAssignment _ => 4
  | .evaluationResult _ => 5
  | .stateSync _ => 6
  | .heartbeat _ => 7
  | .weightCommitment _ => 8
  | .weightReveal _ => 9
  | .epochTransition _ => 10
  | .agentSubmission _ => 11
  | .challengeMessage _ => 12
  | .taskProgress _ => 13
  | .versionMismatch _ _ => 14

def networkMessageBody : NetworkMessage T → Bytes
  | .handshake m => (handshake fmt).ser m
  | .sudoAction m => (sudoAction fmt).ser m
  | .proposal m => (proposal fmt).ser m
  | .vote m => (vote fmt).ser m
  | .jobAssignment m => (jobAssignment fmt).ser m
  | .evaluationResult m => (evaluationResult fmt).ser m
  | .stateSync m => (stateSync fmt).ser m
  | .heartbeat m => (heartbeat fmt).ser m
  | .weightCommitment m => (weightCommitment fmt).ser m
  | .weightReveal m => (weightReveal fmt).ser m
  | .epochTransition m => (epochTransition fmt).ser m
  | .agentSubmission m => (agentSubmission fmt).ser m
  | .challengeMessage m => challengeNetworkMessage.ser m
  | .taskProgress m => taskProgress.ser m
  | .versionMismatch a b => (pair string string).ser (a, b)

def networkMessageVariant : Nat → Reader (NetworkMessage T)
  | 0 => (handshake fmt).de.map .handshake
  | 1 => (sudoAction fmt).de.map .sudoAction
  | 2 => (proposal fmt).de.map .proposal
  | 3 => (vote fmt).de.map .vote
  | 4 => (jobAssignment fmt).de.map .jobAssignment
  | 5 => (evaluationResult fmt).de.map .evaluationResult
  | 6 => (stateSync fmt).de.map .stateSync
  | 7 => (heartbeat fmt).de.map .heartbeat
  | 8 => (weightCommitment fmt).de.map .weightCommitment
  | 9 => (weightReveal fmt).de.map .weightReveal
  | 10 => (epochTransition fmt).de.map .epochTransition
  | 11 => (agentSubmission fmt).de.map .agentSubmission
  | 12 => challengeNetworkMessage.de.map .challengeMessage
  | 13 => taskProgress.de.map .taskProgress
  | _ => (pair string string).de.map fun (a, b) => .versionMismatch a b

def networkMessage : BinCodec (NetworkMessage T) :=
  enumeration networkMessageIndex 15 (networkMessageBody fmt) (networkMessageVariant fmt)

end

/-! ## what is written is read back -/

theorem lawful_challengeMessageType : challengeMessageType.Lawful := by
  refine lawful_enumeration (by decide) ?_ ?_
  · intro x
    cases x <;> simp [challengeMessageTypeIndex]
  · intro x rest h
    cases x with
    | custom kind => exact lawful_string.reads_variant rfl rfl rfl h
    | _ => rfl

theorem lawful_syncDataType : syncDataType.Lawful := by
  refine lawful_enumeration (by decide) ?_ ?_
  · intro x
    cases x <;> decide
  · intro x rest _
    cases x <;> rfl

section
variable {T : Type} {fmt : DateFormat T} (hf : fmt.Lawful)
include hf

theorem lawful_sudoAction : (sudoAction fmt).Lawful := by
  refine lawful_enumeration (by decide) ?_ ?_
  · intro x
    cases x <;> simp [sudoActionIndex]
  · intro x rest h
    cases x with
    | resume => rfl
    | setChallengeWeight id mechanism ratio =>
      exact (lawful_pair lawful_uuid (lawful_pair lawful_u8 lawful_u64)).reads_variant
        (f := fun (a, b, c) => .setChallengeWeight a b c) rfl rfl rfl h
    | setMechanismBurnRate mechanism rate =>
      exact (lawful_pair lawful_u8 lawful_u64).reads_variant
        (f := fun (a, b) => .setMechanismBurnRate a b) rfl rfl rfl h
    | setMechanismConfig mechanism config =>
      exact (lawful_pair lawful_u8 lawful_mechanismWeightConfig).reads_variant
        (f := fun (a, b) => .setMechanismConfig a b) rfl rfl rfl h
    | setRequiredVersion a b c d e f =>
      have hv : sudoRequiredVersion.Lawful := by
        apply_rules [lawful_pair, lawful_string, lawful_bool, lawful_option, lawful_u64]
      exact hv.reads_variant (f := fun (a, b, c, d, e, f) => .setRequiredVersion a b c d e f)
        rfl rfl rfl h
    | _ =>
      exact Lawful.reads_variant (by apply_rules [lawful_networkConfig,
        lawful_challengeContainerConfig, lawful_option, lawful_uuid, lawful_validatorInfo,
        lawful_hotkey, lawful_string, lawful_chainState]) rfl rfl rfl h

theorem lawful_proposalAction : (proposalAction fmt).Lawful := by
  refine lawful_enumeration (by decide) ?_ ?_
  · intro x
    cases x <;> simp
  · intro x rest h
    cases x with
    | jobCompletion id result validator =>
      exact (lawful_pair lawful_uuid (lawful_pair lawful_score lawful_hotkey)).reads_variant
        rfl rfl rfl h
    | _ =>
      exact Lawful.reads_variant (by apply_rules [lawful_sudoAction, lawful_bytes32]) rfl rfl rfl h

theorem lawful_stateSync : (stateSync fmt).Lawful := by
  refine lawful_enumeration (by decide) ?_ ?_
  · intro x
    cases x <;> simp
  · intro x rest h
    cases x with
    | requestSnapshot => rfl
    | dataResponse dataType data =>
      exact (lawful_pair lawful_syncDataType lawful_bytes).reads_variant rfl rfl rfl h
    | _ =>
      exact Lawful.reads_variant (by apply_rules [lawful_chainState, lawful_syncDataType,
        lawful_u64, lawful_bytes32, lawful_dateTime, lawful_pair, lawful_iso, fun _ => rfl])
        rfl rfl rfl h

/-- **Every message is read back**: the kinds of messages are records of lawful fields. -/
theorem lawful_networkMessage : (networkMessage fmt).Lawful := by
  refine lawful_enumeration (by decide) ?_ ?_
  · intro x
    cases x <;> simp [networkMessageIndex]
  · intro x rest h
    cases x with
    | versionMismatch a b =>
      exact (lawful_pair lawful_string lawful_string).reads_variant
        (f := fun (a, b) => .versionMismatch a b) rfl rfl rfl h
    | _ =>
      exact Lawful.reads_variant (by apply_rules [lawful_sudoAction, lawful_proposalAction,
        lawful_stateSync, lawful_challengeMessageType, lawful_job, lawful_score, lawful_uuid,
        lawful_hotkey, lawful_bytes32, lawful_dateTime, lawful_string, lawful_bytes, lawful_bool,
        lawful_u32, lawful_u64, lawful_option, lawful_list, lawful_pair, lawful_iso,
        fun _ => rfl]) rfl rfl rfl h

end

end Layout

/-! ## signed messages -/

section
variable {T : Type}

structure SignedNetworkMessage (T : Type) where
  message : NetworkMessage T
  signature : SignedMessage

def sign (C : Crypto) (kp : Keypair) (rng : Nat) (message : Bytes) : SignedMessage where
  message := message
  signature := C.sign kp rng message
  signer := kp.hotkey

namespace SignedNetworkMessage

/-- `SignedNetworkMessage::new`, by `Keypair::sign_data` -/
def new (C : Crypto) (fmt : DateFormat T) (message : NetworkMessage T) (kp : Keypair) (rng : Nat) :
    SignedNetworkMessage T where
  message := message
  signature := sign C kp rng ((Layout.networkMessage fmt).ser message)

def verify (C : Crypto) (m : SignedNetworkMessage T) : Except MiniChainError Bool :=
  m.signature.verify C

def signer (m : SignedNetworkMessage T) : Hotkey := m.signature.signer

end SignedNetworkMessage

namespace Layout
open BinCodec

def signedMessage : BinCodec SignedMessage :=
  iso (pair bytes (pair bytes hotkey)) (fun m => (m.message, m.signature, m.signer))
    fun (a, b, c) => ⟨a, b, c⟩

def signedNetworkMessage (fmt : DateFormat T) : BinCodec (SignedNetworkMessage T) :=
  iso (pair (networkMessage fmt) signedMessage) (fun m => (m.message, m.signature))
    fun (a, b) => ⟨a, b⟩

theorem lawful_signedNetworkMessage {fmt : DateFormat T} (hf : fmt.Lawful) :
    (signedNetworkMessage fmt).Lawful := by
  apply_rules [lawful_networkMessage, lawful_bytes, lawful_hotkey, lawful_pair, lawful_iso,
    fun _ => rfl]

end Layout

variable {C : Crypto} {fmt : DateFormat T}

/-- **What a node signs and sends arrives as it was sent**, whatever bytes follow, and verifies. -/
theorem message_arrives (hf : fmt.Lawful) (message : NetworkMessage T) (kp : Keypair) (rng : Nat)
    {sent : SignedNetworkMessage T} (hsent : sent = .new C fmt message kp rng)
    (hsign : (C.sign kp rng sent.signature.message).length = 64 ∧
      C.verify (C.sign kp rng sent.signature.message) sent.signature.message kp.hotkey = true)
    (hlen : ((Layout.signedNetworkMessage fmt).ser sent).length < 2 ^ 64) (rest : Bytes) :
    (Layout.signedNetworkMessage fmt).deserialize
        ((Layout.signedNetworkMessage fmt).ser sent ++ rest) = .ok sent ∧
      sent.verify C = .ok true := by
  have hread := (Layout.lawful_signedNetworkMessage hf).reads sent rest hlen
  refine ⟨BinCodec.deserialize_eq_ok.mpr ⟨rest, hread⟩, ?_⟩
  subst hsent
  exact (SignedMessage.verify_ok_iff C _ true).mpr hsign

def NotForged (C : Crypto) (signed : Hotkey → Bytes → Prop) (s : SignedMessage) : Prop :=
  s.verify C = .ok true → signed s.signer s.message

/-- **What a verified message says.**  That its signer has signed the encoding of the value in it
follows exactly when the bytes in its signature are that encoding. -/
theorem signature_covers_iff (m : SignedNetworkMessage T) (hverify : m.verify C = .ok true) :
    (∀ signed : Hotkey → Bytes → Prop, NotForged C signed m.signature →
        signed m.signer ((Layout.networkMessage fmt).ser m.message)) ↔
      m.signature.message = (Layout.networkMessage fmt).ser m.message := by
  constructor
  · intro h
    -- the history in which the signer has signed nothing but the bytes in the signature
    have hsg := h (fun key bs => key = m.signer ∧ bs = m.signature.message) fun _ => ⟨rfl, rfl⟩
    exact hsg.2.symm
  · intro h signed hfr
    rw [← h]
    exact hfr hverify

end

def sampleHeartbeat (b : UInt8) : NetworkMessage Unit :=
  .heartbeat ⟨.ofByte b, 100, (Hotkey.ofByte 0).key, ()⟩

def epochDates : DateFormat Unit := ⟨fun _ => "1970-01-01T00:00:00Z", fun _ => .ok ()⟩

theorem heartbeat_arrives :
    ∃ sent, sent = .new sampleCrypto epochDates (sampleHeartbeat 1) ⟨.ofByte 1⟩ 0 ∧
      (Layout.signedNetworkMessage epochDates).deserialize
        ((Layout.signedNetworkMessage epochDates).ser sent ++ [7]) = .ok sent ∧
      sent.verify sampleCrypto = .ok true :=
  ⟨_, rfl, message_arrives (fun _ => rfl) _ _ _ rfl (by decide +kernel) (by decide +kernel) [7]⟩

theorem signature_covers_heartbeat :
    (SignedNetworkMessage.new sampleCrypto epochDates (sampleHeartbeat 1) ⟨.ofByte 1⟩ 0).verify
      sampleCrypto = .ok true ∧
    ∀ signed : Hotkey → Bytes → Prop,
      NotForged sampleCrypto signed
        (SignedNetworkMessage.new sampleCrypto epochDates (sampleHeartbeat 1) ⟨.ofByte 1⟩
          0).signature →
      signed (.ofByte 1) ((Layout.networkMessage epochDates).ser (sampleHeartbeat 1)) :=
  ⟨by decide +kernel, (@signature_covers_iff Unit sampleCrypto epochDates
    (.new sampleCrypto epochDates (sampleHeartbeat 1) ⟨.ofByte 1⟩ 0) (by decide +kernel)).mpr rfl⟩

def swappedMessage : SignedNetworkMessage Unit where
  message := .sudoAction (.emergencyPause "maintenance")
  signature := sign sampleCrypto ⟨.ofByte 1⟩ 0
    ((Layout.networkMessage epochDates).ser (sampleHeartbeat 1))

/-- It verifies under the key that has signed nothing but the heartbeat. -/
theorem signature_does_not_cover :
    swappedMessage.verify sampleCrypto = .ok true ∧
    ¬ ∀ (m : SignedNetworkMessage Unit) (signed : Hotkey → Bytes → Prop),
      NotForged sampleCrypto signed m.signature → m.verify sampleCrypto = .ok true →
        signed m.signer ((Layout.networkMessage epochDates).ser m.message) := by
  have hvr : swappedMessage.verify sampleCrypto = .ok true := by decide +kernel
  refine ⟨hvr, fun h => ?_⟩
  have hsg := h swappedMessage
    (fun _ bs => bs = (Layout.networkMessage epochDates).ser (sampleHeartbeat 1))
    (fun _ => rfl) hvr
  have hne : (Layout.networkMessage epochDates).ser swappedMessage.message ≠
      (Layout.networkMessage epochDates).ser (sampleHeartbeat 1) := by decide +kernel
  exact hne hsg

end Platform.Chain
