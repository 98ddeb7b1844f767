import Platform.State.Steps
import Platform.Lib.Serde

/-!
# The state on disk (`bins/validator-node/src/main.rs`)

The node puts its state as JSON into its local store and reads it back when it starts.  The derived
encoding of `Hotkey` is an array of bytes, which cannot be the key of a JSON object, so a state with
an entry in one of the maps keyed by hotkeys is not written at all.
-/

namespace Platform.State
open Lib Platform.Core List Codec

/-! ## identifiers -/

/-- the value of a hex digit -/
def hexVal (c : Char) : Option Nat :=
  if '0' ≤ c ∧ c ≤ '9' then some (c.toNat - 48)
  else if 'a' ≤ c ∧ c ≤ 'f' then some (c.toNat - 87)
  else if 'A' ≤ c ∧ c ≤ 'F' then some (c.toNat - 55)
  else none

def hexChars (bs : Bytes) : List Char :=
  bs.flatMap fun b => [hexDigit (b.toNat / 16), hexDigit (b.toNat % 16)]

def hexDecode : List Char → Option Bytes
  | [] => some []
  | [_] => none
  | a :: b :: l => do
    let x ← hexVal a
    let y ← hexVal b
    let bs ← hexDecode l
    some (.ofNat (16 * x + y) :: bs)

theorem hexVal_hexDigit : ∀ n < 16, hexVal (hexDigit n) = some n := by decide

theorem hexDigit_ne_dash : ∀ n < 16, hexDigit n ≠ '-' := by decide

theorem hexDecode_hexChars (bs : Bytes) : hexDecode (hexChars bs) = some bs := by
  induction bs with
  | nil => rfl
  | cons b bs ih =>
    have hb := b.toNat_lt
    have hsm : 16 * (b.toNat / 16) + b.toNat % 16 = b.toNat := by omega
    show hexDecode (hexDigit (b.toNat / 16) :: hexDigit (b.toNat % 16) :: hexChars bs) = _
    rw [hexDecode, hexVal_hexDigit _ (by omega), hexVal_hexDigit _ (by omega), ih]
    show some (UInt8.ofNat (16 * (b.toNat / 16) + b.toNat % 16) :: bs) = _
    rw [hsm, UInt8.ofNat_toNat]

theorem notMem_hexChars {c : Char} (hc : ∀ n < 16, hexDigit n ≠ c) (bs : Bytes) :
    c ∉ hexChars bs := by
  intro h
  obtain ⟨b, -, hb⟩ := mem_flatMap.mp h
  have hlt := b.toNat_lt
  simp only [mem_cons, not_mem_nil, or_false] at hb
  rcases hb with hb | hb
  · exact hc _ (by omega) hb.symm
  · exact hc _ (by omega) hb.symm

def uuidGroups (bs : Bytes) : List Bytes :=
  [bs.take 4, (bs.drop 4).take 2, (bs.drop 6).take 2, (bs.drop 8).take 2, bs.drop 10]

namespace ChallengeId

/-- the hyphenated form of the UUID -/
def toText (id : ChallengeId) : String :=
  .ofList (['-'].intercalate ((uuidGroups id.uuid).map hexChars))

/-- a UUID in its hyphenated form -/
def ofText (s : String) : Option ChallengeId := do
  let groups ← (s.toList.splitOn '-').mapM hexDecode
  if h : groups.map length = [4, 2, 2, 2, 6] then
    some ⟨groups.flatten, by rw [length_flatten, h]; rfl⟩
  else none

theorem ofText_toText (id : ChallengeId) : ofText id.toText = some id := by
  obtain ⟨bs, hle⟩ := id
  have hsp : (toText ⟨bs, hle⟩).toList.splitOn '-' = (uuidGroups bs).map hexChars := by
    rw [toText, String.toList_ofList]
    refine splitOn_intercalate '-' ?_ (by simp [uuidGroups])
    intro l hl
    obtain ⟨g, -, rfl⟩ := mem_map.mp hl
    exact notMem_hexChars hexDigit_ne_dash g
  have hdc : ((uuidGroups bs).map hexChars).mapM hexDecode = some (uuidGroups bs) := by
    induction uuidGroups bs with
    | nil => rfl
    | cons g gs ih => simp [hexDecode_hexChars, ih]
  have hfl : (uuidGroups bs).flatten = bs := by
    have h4 : bs.drop 6 = (bs.drop 4).drop 2 := by simp
    have h6 : bs.drop 8 = (bs.drop 6).drop 2 := by simp
    have h8 : bs.drop 10 = (bs.drop 8).drop 2 := by simp
    simp only [uuidGroups, flatten_cons, flatten_nil, append_nil]
    rw [h8, take_append_drop, h6, take_append_drop, h4, take_append_drop, take_append_drop]
  have hln : (uuidGroups bs).map length = [4, 2, 2, 2, 6] := by simp [uuidGroups, hle]
  simp [ofText, hsp, hdc, hln, hfl]

end ChallengeId

/-! ## the derived encodings -/

/-- How a finite `f64` is written as a decimal literal, and what is read back from one.  The reader
of `serde_json` is not exact. -/
class FloatText (F : Type) where
  decimal : F → Decimal
  read : Decimal → F

/-- twenty digits after the point -/
instance : FloatText ℚ where
  decimal x := ⟨⌊x * 10 ^ 20⌋, -20⟩
  read d := d.mantissa * (10 : ℚ) ^ d.exponent

section
variable {F : Type} [F64 F] [FloatText F]

def f64Codec : Codec F where
  ser x := .ok (if F64.isFinite x then .float (FloatText.decimal x) else .null)
  de
    | .float d => some (FloatText.read d)
    | .int n => some (FloatText.read ⟨n, 0⟩)
    | _ => none

def Exact (x : F) : Prop := F64.isFinite x = true ∧ FloatText.read (FloatText.decimal x) = x

theorem roundTrips_f64 (x : F) : f64Codec.RoundTrips x ↔ Exact x := by
  unfold Codec.RoundTrips Exact
  cases h : F64.isFinite x with
  | false | true => simp [f64Codec, h]

end

/-- `[u8; 32]` -/
def bytes32Codec : Codec Bytes32 :=
  .through (.list .u8) Bytes32.bytes fun l => if h : l.length = 32 then some ⟨l, h⟩ else none

@[simp] theorem roundTrips_bytes32 (b : Bytes32) : bytes32Codec.RoundTrips b :=
  roundTrips_through (dif_pos b.len) (by simp)

def hotkeyCodec : Codec Hotkey := .through bytes32Codec Hotkey.key fun b => some ⟨b⟩

@[simp] theorem roundTrips_hotkey (h : Hotkey) : hotkeyCodec.RoundTrips h :=
  roundTrips_through rfl (by simp)

def challengeIdCodec : Codec ChallengeId := .through .string ChallengeId.toText ChallengeId.ofText

@[simp] theorem roundTrips_challengeId (id : ChallengeId) : challengeIdCodec.RoundTrips id :=
  roundTrips_through id.ofText_toText (by simp)

def challengeIdKey : KeyCodec ChallengeId := ⟨fun id => .ok id.toText, ChallengeId.ofText⟩

theorem lawful_challengeIdKey : challengeIdKey.Lawful := fun id => ⟨_, rfl, id.ofText_toText⟩

def hotkeyMap {υ : Type} (c : Codec υ) : Codec (HashMap Hotkey υ) := .map .notString c

@[simp] theorem roundTrips_hotkeyMap {υ : Type} (c : Codec υ) (m : HashMap Hotkey υ) :
    (hotkeyMap c).RoundTrips m ↔ m = ∅ := roundTrips_map_notString c m

/-- `Vec<(u16, u16)>` -/
def weightsCodec : Codec Weights := .list (.pair .u16 .u16)

@[simp] theorem roundTrips_weights (w : Weights) : weightsCodec.RoundTrips w := by
  simp [weightsCodec]

def challengeConfigCodec : Codec ChallengeConfig :=
  .ofEquiv
    { toFun := fun c =>
        (c.id, c.name, c.dockerImage, c.weight, c.isActive, c.creator, c.createdAt, ())
      invFun := fun (a, b, c, d, e, f, g, ()) => ⟨a, b, c, d, e, f, g⟩ }
    (Fields.codec <|
      .cons "id" challengeIdCodec <|
      .cons "name" .string <|
      .cons "docker_image" .string <|
      .cons "weight" .u16 <|
      .cons "is_active" .bool <|
      .cons "creator" hotkeyCodec <|
      .cons "created_at" .i64 <|
      .nil)

@[simp] theorem roundTrips_challengeConfig (c : ChallengeConfig) :
    challengeConfigCodec.RoundTrips c := by
  simp [challengeConfigCodec]

def weightVotesCodec : Codec WeightVotes :=
  .ofEquiv
    { toFun := fun w => (w.epoch, w.netuid, w.votes, w.finalized, w.finalWeights, ())
      invFun := fun (a, b, c, d, e, ()) => ⟨a, b, c, d, e⟩ }
    (Fields.codec <|
      .cons "epoch" .u64 <|
      .cons "netuid" .u16 <|
      .cons "votes" (hotkeyMap weightsCodec) <|
      .cons "finalized" .bool <|
      .cons "final_weights" (.option weightsCodec) <|
      .nil)

@[simp] theorem roundTrips_weightVotes (w : WeightVotes) :
    weightVotesCodec.RoundTrips w ↔ w.votes = ∅ := by
  simp [weightVotesCodec, roundTrips_option weightsCodec rfl]

section
variable (F : Type) [F64 F] [FloatText F]

def validatorEvaluationCodec : Codec (ValidatorEvaluation F) :=
  .ofEquiv
    { toFun := fun x => (x.score, x.stake, x.timestamp, x.signature, ())
      invFun := fun (a, b, c, d, ()) => ⟨a, b, c, d⟩ }
    (Fields.codec <|
      .cons "score" f64Codec <|
      .cons "stake" .u64 <|
      .cons "timestamp" .i64 <|
      .cons "signature" (.list .u8) <|
      .nil)

def evaluationRecordCodec : Codec (EvaluationRecord F) :=
  .ofEquiv
    { toFun := fun r =>
        (r.submissionId, r.challengeId, r.miner, r.agentHash, r.evaluations, r.aggregatedScore,
          r.finalized, r.createdAt, r.finalizedAt, ())
      invFun := fun (a, b, c, d, e, f, g, h, i, ()) => ⟨a, b, c, d, e, f, g, h, i⟩ }
    (Fields.codec <|
      .cons "submission_id" .string <|
      .cons "challenge_id" challengeIdCodec <|
      .cons "miner" hotkeyCodec <|
      .cons "agent_hash" .string <|
      .cons "evaluations" (hotkeyMap (validatorEvaluationCodec F)) <|
      .cons "aggregated_score" (.option f64Codec) <|
      .cons "finalized" .bool <|
      .cons "created_at" .i64 <|
      .cons "finalized_at" (.option .i64) <|
      .nil)

def chainStateCodec : Codec (ChainState F) :=
  .ofEquiv
    { toFun := fun s =>
        (s.sequence, s.epoch, s.stateHash, s.validators, s.challenges, s.pendingEvaluations,
          s.completedEvaluations, s.weightVotes, s.historicalWeights, s.sudoKey, s.netuid,
          s.lastUpdated, s.bittensorBlock, s.bittensorBlockHash, ())
      invFun := fun (a, b, c, d, e, f, g, h, i, j, k, l, m, n, ()) =>
        ⟨a, b, c, d, e, f, g, h, i, j, k, l, m, n⟩ }
    (Fields.codec <|
      .cons "sequence" .u64 <|
      .cons "epoch" .u64 <|
      .cons "state_hash" bytes32Codec <|
      .cons "validators" (hotkeyMap .u64) <|
      .cons "challenges" (.map challengeIdKey challengeConfigCodec) <|
      .cons "pending_evaluations" (.map .string (evaluationRecordCodec F)) <|
      .cons "completed_evaluations" (.map .u64 (.list (evaluationRecordCodec F))) <|
      .cons "weight_votes" (.option weightVotesCodec) <|
      .cons "historical_weights" (.map .u64 weightsCodec) <|
      .cons "sudo_key" hotkeyCodec <|
      .cons "netuid" .u16 <|
      .cons "last_updated" .i64 <|
      .cons "bittensor_block" .u64 <|
      .cons "bittensor_block_hash" bytes32Codec <|
      .nil)

end

section
variable {F : Type} [F64 F] [FloatText F]

/-- nobody has evaluated the submission, and its score survives the decimal text -/
def Writable (r : EvaluationRecord F) : Prop :=
  r.evaluations = ∅ ∧ ∀ x, r.aggregatedScore = some x → Exact x

theorem roundTrips_evaluationRecord (r : EvaluationRecord F) :
    (evaluationRecordCodec F).RoundTrips r ↔ Writable r := by
  simp [evaluationRecordCodec, Writable, roundTrips_option f64Codec rfl,
    roundTrips_option i64 rfl, roundTrips_f64]

/-- no map keyed by hotkeys has an entry, and every score survives the decimal text -/
@[mk_iff]
structure Persistable (s : ChainState F) : Prop where
  validators : s.validators = ∅
  pending : ∀ id r, s.pendingEvaluations.lookup id = some r → Writable r
  completed : ∀ e rs, s.completedEvaluations.lookup e = some rs → ∀ r ∈ rs, Writable r
  votes : ∀ w, s.weightVotes = some w → w.votes = ∅

theorem roundTrips_chainState (s : ChainState F) :
    (chainStateCodec F).RoundTrips s ↔ Persistable s := by
  rw [persistable_iff]
  simp [chainStateCodec, roundTrips_map KeyCodec.lawful_string,
    roundTrips_map KeyCodec.lawful_u64, roundTrips_map lawful_challengeIdKey,
    roundTrips_option weightVotesCodec rfl, roundTrips_evaluationRecord]

end

/-! ## the local store -/

structure StorageKey where
  space : String
  key : Bytes
deriving DecidableEq

/-- `StorageError::Serialization` -/
inductive StorageError where
  | serialization (msg : String)
deriving DecidableEq

/-- the documents in the store -/
abbrev LocalStorage := HashMap StorageKey Json

def putJson {α : Type} (c : Codec α) (storage : LocalStorage) (key : StorageKey) (value : α) :
    Except StorageError LocalStorage :=
  match c.ser value with
  | .error msg => .error (.serialization msg)
  | .ok data => .ok (storage.insert key data)

def getJson {α : Type} (c : Codec α) (storage : LocalStorage) (key : StorageKey) :
    Option (Option α) :=
  match storage.lookup key with
  | some data => (c.de data).map some
  | none => some none

def stateStorageKey : StorageKey := ⟨"state", "chain_state".toUTF8.toList⟩

section
variable {F : Type} [F64 F] [FloatText F]

def persistStateToStorage (storage : LocalStorage) (state : ChainState F) :
    Except StorageError LocalStorage :=
  putJson (chainStateCodec F) storage stateStorageKey state

def loadStateFromStorage (storage : LocalStorage) (netuid : UInt16) : Option (ChainState F) :=
  match getJson (chainStateCodec F) storage stateStorageKey with
  | some (some state) => if state.netuid ≠ netuid then none else some state
  | some none => none
  | none => none

theorem getJson_putJson {α : Type} {c : Codec α} {sto storage' : LocalStorage}
    {key : StorageKey} {x : α} (h : putJson c sto key x = .ok storage') :
    ∃ j, c.ser x = .ok j ∧ getJson c storage' key = (c.de j).map some := by
  unfold putJson at h
  cases hsr : c.ser x with
  | error msg =>
    rw [hsr] at h
    cases h
  | ok j =>
    rw [hsr] at h
    obtain rfl : sto.insert key j = storage' := Except.ok.inj h
    exact ⟨j, rfl, by rw [getJson, AList.lookup_insert]⟩

theorem load_eq_some_iff (sto : LocalStorage) (s : ChainState F) :
    loadStateFromStorage sto s.netuid = some s ↔
      getJson (chainStateCodec F) sto stateStorageKey = some (some s) := by
  unfold loadStateFromStorage
  constructor
  · intro h
    split at h
    · rename_i t ht
      split at h
      · cases h
      · rw [ht, Option.some_inj.mp h]
    · cases h
    · cases h
  · intro h
    rw [h]
    simp

/-- **A state comes back** exactly when no map of it that is keyed by hotkeys has an entry and all
its scores are finite and come back from their decimal text. -/
theorem persist_iff (storage : LocalStorage) (s : ChainState F) :
    (∃ storage', persistStateToStorage storage s = .ok storage' ∧
      loadStateFromStorage storage' s.netuid = some s) ↔ Persistable s := by
  rw [← roundTrips_chainState]
  constructor
  · rintro ⟨storage', hpt, hld⟩
    obtain ⟨j, hsr, hg⟩ := getJson_putJson hpt
    rw [load_eq_some_iff, hg] at hld
    obtain ⟨t, ht, hts⟩ := Option.map_eq_some_iff.mp hld
    exact ⟨j, hsr, Option.some_inj.mp hts ▸ ht⟩
  · rintro ⟨j, hsr, hde⟩
    have hpt : persistStateToStorage storage s = .ok (storage.insert stateStorageKey j) := by
      rw [persistStateToStorage, putJson, hsr]
    obtain ⟨j', hsr', hg⟩ := getJson_putJson hpt
    obtain rfl : j' = j := Except.ok.inj (hsr'.symm.trans hsr)
    refine ⟨_, hpt, (load_eq_some_iff _ s).mpr ?_⟩
    rw [hg, hde]
    rfl

/-- **A state with a validator is not written.** -/
theorem persist_key_error (sto : LocalStorage) (s : ChainState F) (h : s.validators ≠ ∅) :
    persistStateToStorage sto s = .error (.serialization "key must be a string") := by
  have hsr : (chainStateCodec F).ser s = .error "key must be a string" := by
    have hvl := ser_map_notString u64 h
    obtain ⟨j, hj, -⟩ := roundTrips_bytes32 s.stateHash
    simp only [chainStateCodec, ofEquiv, Fields.codec, Fields.cons, hotkeyMap,
      Equiv.coe_fn_mk, hvl, hj]
    rfl
  rw [persistStateToStorage, putJson, hsr]

end

/-- A new state is written and comes back. -/
theorem persist_new :
    ∃ storage', persistStateToStorage ∅ (ChainState.new sampleCrypto 0 1 : ChainState ℚ) =
        .ok storage' ∧
      loadStateFromStorage storage' 1 = some (ChainState.new sampleCrypto 0 1 : ChainState ℚ) := by
  refine (persist_iff ∅ (ChainState.new sampleCrypto 0 1 : ChainState ℚ)).mpr ⟨rfl, ?_, ?_, ?_⟩
  · intro id r h
    cases h
  · intro e rs h
    cases h
  · intro w h
    cases h

/-- **One validator is enough**: the state is reached by one operation and is not written. -/
theorem persist_one_validator :
    ¬ ∀ (C : Crypto) (now : Int) (netuid : UInt16) (l : List (StateCall ℚ)) (s : ChainState ℚ)
      (storage : LocalStorage), StateRun C (ChainState.new C now netuid) l s →
      ∃ storage', persistStateToStorage storage s = .ok storage' ∧
        loadStateFromStorage storage' netuid = some s := by
  intro h
  have hrun := stateRun_sampleTrace [.updateValidator (.ofByte 1) 5]
  obtain ⟨storage', hpt, -⟩ := h _ _ _ _ _ ∅ hrun
  cases hpt

end Platform.State
