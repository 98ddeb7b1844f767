import Platform.Epoch.Commitment
import Platform.State.Persist

/-!
# Weight submission with persistence (`crates/bittensor-integration/src/weights.rs`)

`WeightSubmitter` commits to weights on the chain and reveals them later.  What is still to be
revealed is kept in memory and in a file, so that a restart finds it again.

The file is a JSON document, or is missing; writing it does not fail.  The calls of `bittensor_rs`
are third-party code: their answers are arguments (`Chain`, by the number of the call within the
operation), and so are the salts that they draw.  Direct submissions and those with timelock
encryption keep nothing for later.
-/

namespace Platform.Bittensor
open Platform.Core Lib
open State (hexDecode hexChars hexDecode_hexChars)

/-! ## pending commits -/

structure PendingCommitV2 where
  hash : String
  uids : List UInt16
  weights : List UInt16
  saltHex : String
  versionKey : UInt64
  epoch : UInt64
deriving DecidableEq

structure PendingMechanismCommit where
  mechanismId : UInt8
  hash : String
  uids : List UInt16
  weights : List UInt16
  saltHex : String
  versionKey : UInt64
  epoch : UInt64
deriving DecidableEq

/-- pairs of bytes as little-endian numbers; a last single byte is one by itself -/
def saltOfBytes : Bytes → List UInt16
  | a :: b :: bs => .ofNat (a.toNat + 256 * b.toNat) :: saltOfBytes bs
  | [a] => [.ofNat a.toNat]
  | [] => []

def getSalt (saltHex : String) : List UInt16 :=
  saltOfBytes ((hexDecode saltHex.toList).getD [])

def saltToHex (salt : List UInt16) : String :=
  hexEncode (salt.flatMap fun s => [.ofNat (s.toNat % 256), .ofNat (s.toNat / 256)])

/-! ## the file -/

structure PersistedCommitState where
  committedEpoch : Option UInt64
  pendingMechanismCommits : HashMap UInt8 PendingMechanismCommit
  pendingCommit : Option PendingCommitV2
  lastRevealedEpoch : HashMap UInt8 UInt64

namespace PersistedCommitState

def default : PersistedCommitState := ⟨none, ∅, none, ∅⟩

def pendingCommitCodec : Codec PendingCommitV2 :=
  .ofEquiv
    { toFun := fun c => (c.hash, c.uids, c.weights, c.saltHex, c.versionKey, c.epoch, ())
      invFun := fun (a, b, c, d, e, f, ()) => ⟨a, b, c, d, e, f⟩ }
    (Fields.codec <|
      .cons "hash" .string <|
      .cons "uids" (.list .u16) <|
      .cons "weights" (.list .u16) <|
      .cons "salt_hex" .string <|
      .cons "version_key" .u64 <|
      .cons "epoch" .u64 <|
      .nil)

def mechanismCommitCodec : Codec PendingMechanismCommit :=
  .ofEquiv
    { toFun := fun c =>
        (c.mechanismId, c.hash, c.uids, c.weights, c.saltHex, c.versionKey, c.epoch, ())
      invFun := fun (a, b, c, d, e, f, g, ()) => ⟨a, b, c, d, e, f, g⟩ }
    (Fields.codec <|
      .cons "mechanism_id" .u8 <|
      .cons "hash" .string <|
      .cons "uids" (.list .u16) <|
      .cons "weights" (.list .u16) <|
      .cons "salt_hex" .string <|
      .cons "version_key" .u64 <|
      .cons "epoch" .u64 <|
      .nil)

def codec : Codec PersistedCommitState :=
  .ofEquiv
    { toFun := fun s =>
        (s.committedEpoch, s.pendingMechanismCommits, s.pendingCommit, s.lastRevealedEpoch, ())
      invFun := fun (a, b, c, d, ()) => ⟨a, b, c, d⟩ }
    (Fields.codec <|
      .cons "committed_epoch" (.option .u64) <|
      .cons "pending_mechanism_commits" (.map .u8 mechanismCommitCodec) <|
      .cons "pending_commit" (.option pendingCommitCodec) <|
      .cons "last_revealed_epoch" (.map .u8 .u64) <|
      .nil)

@[simp] theorem roundTrips_pendingCommit (c : PendingCommitV2) :
    pendingCommitCodec.RoundTrips c := by
  simp [pendingCommitCodec]

@[simp] theorem roundTrips_mechanismCommit (c : PendingMechanismCommit) :
    mechanismCommitCodec.RoundTrips c := by
  simp [mechanismCommitCodec]

theorem roundTrips_codec (s : PersistedCommitState) : codec.RoundTrips s := by
  simp [codec, Codec.roundTrips_map KeyCodec.lawful_u8, Codec.roundTrips_option Codec.u64 rfl,
    Codec.roundTrips_option pendingCommitCodec rfl]

/-- `load`: a file that is missing or does not parse counts as empty -/
def load (file : Option Json) : PersistedCommitState :=
  match file with
  | some j => (codec.de j).getD default
  | none => default

theorem load_of_ser {s : PersistedCommitState} {j : Json} (h : codec.ser s = .ok j) :
    load (some j) = s := by
  obtain ⟨j', hsr, hde⟩ := roundTrips_codec s
  obtain rfl : j' = j := Except.ok.inj (hsr.symm.trans h)
  rw [load, hde]
  rfl

def newEpoch (s : PersistedCommitState) (epoch : UInt64) : PersistedCommitState :=
  if s.committedEpoch ≠ some epoch then
    { s with pendingMechanismCommits := ∅, pendingCommit := none }
  else s

end PersistedCommitState

/-! ## the chain -/

structure BittensorConfig where
  netuid : UInt16
  useCommitReveal : Bool
  versionKey : UInt64

structure SubtensorClient where
  config : BittensorConfig
  connected : Bool
  account : Option Bytes32
  uidForHotkey : String → Option UInt16

namespace SubtensorClient

def client (c : SubtensorClient) : Except String Unit :=
  if c.connected then .ok () else .error "Not connected to Subtensor"

def signer (c : SubtensorClient) : Except String Bytes32 :=
  match c.account with
  | some account => .ok account
  | none => .error "Signer not set"

def getUidsForHotkeys (c : SubtensorClient) (hotkeys : List String) : List (String × UInt16) :=
  hotkeys.filterMap fun h => (c.uidForHotkey h).map fun uid => (h, uid)

end SubtensorClient

inductive ChainCall where
  | setWeights (netuid : UInt16) (uids : List UInt64) (weights : List UInt16) (versionKey : UInt64)
  | commitWeights (netuid : UInt16) (hash : String)
  | revealWeights (netuid : UInt16) (uids : List UInt64) (weights : List UInt16)
      (salt : List UInt16) (versionKey : UInt64)
  | batchSetMechanismWeights (netuid : UInt16)
      (weights : List (UInt8 × List UInt16 × List UInt16)) (versionKey : UInt64)
  | batchCommit (netuid : UInt16) (commits : List (UInt8 × String))
  | revealMechanismWeights (netuid : UInt16) (mechanismId : UInt8) (uids weights : List UInt16)
      (salt : List UInt16) (versionKey : UInt64)

/-- the answer to the `n`-th call: the hash of the transaction, or an error -/
abbrev Chain := Nat → ChainCall → Except String String

/-- the data of a commit, as `prepare_commit_reveal` returns it -/
structure CommitData where
  commitHash : String
  uids : List UInt16
  weights : List UInt16
  salt : List UInt16
  versionKey : UInt64

/-- what is computed by `bittensor_rs`, and the scaling of a weight to `u16` -/
structure Library (F : Type) where
  prepareCommitReveal : Bytes32 → UInt16 → List UInt16 → List UInt16 → UInt64 → List UInt16 →
    CommitData
  mechanismCommitHash : Bytes32 → UInt16 → UInt8 → List UInt16 → List UInt16 → List UInt16 →
    UInt64 → String
  defaultCommitRevealVersion : UInt16
  /-- `(w.clamp(0.0, 1.0) * 65535.0) as u16` -/
  scale : F → UInt16

/-! ## the submitter -/

structure WeightSubmitter where
  client : SubtensorClient
  state : PersistedCommitState
  file : Option Json
  currentEpoch : UInt64
  cachedCrvVersion : Option UInt16

namespace WeightSubmitter
variable {F : Type}

def new (client : SubtensorClient) (file : Option Json) : WeightSubmitter :=
  ⟨client, .load file, file, 0, none⟩

variable (L : Library F) (chain : Chain) (s : WeightSubmitter)
  (weights : List (Epoch.WeightAssignment F))

def persist : WeightSubmitter :=
  match PersistedCommitState.codec.ser s.state with
  | .ok j => { s with file := some j }
  | .error _ => s

def store (state : PersistedCommitState) : WeightSubmitter :=
  persist { s with state := state }

theorem store_eq (state : PersistedCommitState) :
    ∃ file, PersistedCommitState.load file = state ∧
      s.store state = { s with state := state, file := file } := by
  obtain ⟨j, hsr, -⟩ := PersistedCommitState.roundTrips_codec state
  refine ⟨some j, PersistedCommitState.load_of_ser hsr, ?_⟩
  rw [store, persist]
  rw [hsr]

section
variable (s : WeightSubmitter) (state : PersistedCommitState)

@[simp] theorem store_store (state' : PersistedCommitState) :
    (s.store state).store state' = s.store state' := by
  obtain ⟨file, -, heq⟩ := s.store_eq state
  obtain ⟨j, hsr, -⟩ := PersistedCommitState.roundTrips_codec state'
  rw [heq, store, store, persist, persist]
  rw [hsr]

@[simp] theorem state_store : (s.store state).state = state := by
  obtain ⟨file, -, heq⟩ := s.store_eq state
  rw [heq]

@[simp] theorem load_store : .load (s.store state).file = state := by
  obtain ⟨file, hld, heq⟩ := s.store_eq state
  rw [heq]
  exact hld

@[simp] theorem client_store : (s.store state).client = s.client := by
  obtain ⟨file, -, heq⟩ := s.store_eq state
  rw [heq]

@[simp] theorem currentEpoch_store : (s.store state).currentEpoch = s.currentEpoch := by
  obtain ⟨file, -, heq⟩ := s.store_eq state
  rw [heq]

end

def setEpoch (epoch : UInt64) : WeightSubmitter :=
  if epoch ≠ s.currentEpoch then
    store { s with currentEpoch := epoch } (s.state.newEpoch epoch)
  else s

def prepareWeights : List UInt64 × List UInt16 :=
  let uidMap := s.client.getUidsForHotkeys (weights.map fun w => w.hotkey)
  let found := weights.filterMap fun w =>
    (uidMap.find? fun p => p.1 = w.hotkey).map fun p => (UInt64.ofNat p.2.toNat, L.scale w.weight)
  found.unzip

def send (n : Nat) (call : ChainCall) :
    Except String String := do
  s.client.client
  let _ ← s.client.signer
  chain n call

def submitDirect : Except String String :=
  let (uids, values) := s.prepareWeights L weights
  if uids.isEmpty then .error "No valid UIDs found for weights"
  else s.send chain 0 (.setWeights s.client.config.netuid uids values s.client.config.versionKey)

def revealPendingV2 (pending : PendingCommitV2) : Except String String :=
  s.send chain 0 (.revealWeights s.client.config.netuid
    (pending.uids.map fun u => UInt64.ofNat u.toNat) pending.weights (getSalt pending.saltHex)
    pending.versionKey)

/-- the second half of `submit_with_commit_reveal`: a new commit -/
def commitNew (salt : List UInt16) (s : WeightSubmitter)
    (weights : List (Epoch.WeightAssignment F)) : Except String String × WeightSubmitter :=
  let (uids, values) := s.prepareWeights L weights
  if uids.isEmpty then (.error "No valid UIDs found for weights", s)
  else
    match s.client.signer with
    | .error e => (.error e, s)
    | .ok account =>
      let data := L.prepareCommitReveal account s.client.config.netuid
        (uids.map fun u => UInt16.ofNat u.toNat) values s.client.config.versionKey salt
      match s.send chain 0 (.commitWeights s.client.config.netuid data.commitHash) with
      | .error e => (.error e, s)
      | .ok tx =>
        (.ok tx, s.store { s.state with
          pendingCommit := some ⟨data.commitHash, data.uids, data.weights, saltToHex data.salt,
            data.versionKey, s.currentEpoch⟩ })

def submitWithCommitReveal (salt : List UInt16) (s : WeightSubmitter)
    (weights : List (Epoch.WeightAssignment F)) : Except String String × WeightSubmitter :=
  match s.state.pendingCommit with
  | some pending =>
    let s := s.store { s.state with pendingCommit := none }
    (s.revealPendingV2 chain pending, s)
  | none => s.commitNew L chain salt weights

def submitWeights (salt : List UInt16) (s : WeightSubmitter)
    (weights : List (Epoch.WeightAssignment F)) : Except String String × WeightSubmitter :=
  if s.client.config.useCommitReveal then s.submitWithCommitReveal L chain salt weights
  else (s.submitDirect L chain weights, s)

def forceReveal : Except String (Option String) × WeightSubmitter :=
  match s.state.pendingCommit with
  | some pending =>
    let s := s.store { s.state with pendingCommit := none }
    ((s.revealPendingV2 chain pending).map some, s)
  | none => (.ok none, s)

def getCrvVersion (answer : Except String UInt16) (s : WeightSubmitter) :
    Except String UInt16 × WeightSubmitter :=
  match s.cachedCrvVersion with
  | some version => (.ok version, s)
  | none =>
    match s.client.client with
    | .error e => (.error e, s)
    | .ok _ =>
      let version := answer.toOption.getD L.defaultCommitRevealVersion
      (.ok version, { s with cachedCrvVersion := some version })

def pendingCommits (account : Bytes32) (salt : Nat → List UInt16) (s : WeightSubmitter)
    (mechanismWeights : List (UInt8 × List UInt16 × List UInt16)) : List PendingMechanismCommit :=
  mechanismWeights.mapIdx fun i (mechanismId, uids, weights) =>
    { mechanismId := mechanismId
      hash := L.mechanismCommitHash account s.client.config.netuid mechanismId uids weights (salt i)
        s.client.config.versionKey
      uids := uids
      weights := weights
      saltHex := saltToHex (salt i)
      versionKey := s.client.config.versionKey
      epoch := s.currentEpoch }

/-- `submit_mechanism_weights_batch_commit_reveal` -/
def submitBatchCommitReveal (salt : Nat → List UInt16) (s : WeightSubmitter)
    (mechanismWeights : List (UInt8 × List UInt16 × List UInt16)) :
    Except String String × WeightSubmitter :=
  match s.client.signer with
  | .error e => (.error e, s)
  | .ok account =>
    let pending := s.pendingCommits L account salt mechanismWeights
    match s.send chain 0 (.batchCommit s.client.config.netuid
        (pending.map fun c => (c.mechanismId, c.hash))) with
    | .error e => (.error e, s)
    | .ok tx =>
      (.ok tx, s.store { s.state with
        pendingMechanismCommits := pending.foldl (fun m c => m.insert c.mechanismId c)
          s.state.pendingMechanismCommits
        committedEpoch := some s.currentEpoch })

def submitMechanismWeightsBatch (salt : Nat → List UInt16) (version : Except String UInt16)
    (timelocked : Except String String) (s : WeightSubmitter)
    (mechanismWeights : List (UInt8 × List UInt16 × List UInt16)) :
    Except String String × WeightSubmitter :=
  if mechanismWeights.isEmpty then (.error "No mechanism weights to submit", s)
  else if s.client.config.useCommitReveal then
    let (crvVersion, s) := s.getCrvVersion L version
    if 4 ≤ crvVersion.toOption.getD 0 then (timelocked, s)
    else s.submitBatchCommitReveal L chain salt mechanismWeights
  else
    (s.send chain 0 (.batchSetMechanismWeights s.client.config.netuid mechanismWeights
      s.client.config.versionKey), s)

def revealOne (n : Nat) (commit : PendingMechanismCommit) : Except String String :=
  s.send chain n (.revealMechanismWeights s.client.config.netuid commit.mechanismId commit.uids
    commit.weights (getSalt commit.saltHex) commit.versionKey)

/-- the loop over the commits; it ends with the first error -/
def revealLoop (chain : Chain) (s : WeightSubmitter) (n : Nat) (lastTx : String)
    (revealed : List (UInt8 × UInt64)) :
    List (UInt8 × PendingMechanismCommit) → Except String (String × List (UInt8 × UInt64))
  | [] => .ok (lastTx, revealed)
  | (_, commit) :: rest =>
    match s.revealOne chain n commit with
    | .error e => .error e
    | .ok tx =>
      revealLoop chain s (n + 1) tx (revealed ++ [(commit.mechanismId, commit.epoch)]) rest

def revealPendingMechanismCommits (it : Iteration UInt8) (s : WeightSubmitter) :
    Except String (Option String) × WeightSubmitter :=
  if s.state.pendingMechanismCommits.size = 0 then (.ok none, s)
  else
    let pending := s.state.pendingMechanismCommits.pairsBy it
    let s := s.store { s.state with pendingMechanismCommits := ∅ }
    match s.revealLoop chain 0 "" [] pending with
    | .error e => (.error e, s)
    | .ok (lastTx, revealed) =>
      (.ok (some lastTx), s.store { s.state with
        lastRevealedEpoch := revealed.foldl (fun m p => m.insert p.1 p.2)
          s.state.lastRevealedEpoch })

end WeightSubmitter

/-! ## samples -/

def sampleClient : SubtensorClient where
  config := ⟨100, true, 1⟩
  connected := true
  account := some (Hotkey.ofByte 1).key
  uidForHotkey h := if h = "miner" then some 3 else none

def sampleLibrary : Library Unit where
  prepareCommitReveal _ _ uids weights versionKey salt := ⟨"0xab", uids, weights, salt, versionKey⟩
  mechanismCommitHash _ _ _ _ _ _ _ := "0xcd"
  defaultCommitRevealVersion := 3
  scale _ := 65535

end Platform.Bittensor
