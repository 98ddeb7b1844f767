import Platform.Chain.Types

/-!
# The operations of the chain state (`crates/core/src/state.rs`)

Each operation that changes one of the hashed fields hashes the state again.  The hash covers the
height, the sudo key and the numbers of validators, challenges and pending jobs (`hashInput`).

The clock is an argument of every operation that reads it.  The height wraps, as in a release build.
-/

namespace Platform.Chain
open Platform.Core Lib BinCodec Layout

def ValidatorInfo.new {T : Type} (hotkey : Hotkey) (stake : Stake) (now : T) : ValidatorInfo T :=
  ⟨hotkey, stake, true, now, none, none⟩

def hashInputLayout : BinCodec (BlockHeight × Hotkey × UInt64 × UInt64 × UInt64) :=
  pair u64 (pair hotkey (pair u64 (pair u64 u64)))

namespace ChainState
variable {T : Type}

variable (C : Crypto) (now : T) (s : ChainState T)

/-- what `update_hash` hashes -/
def hashInput : Bytes :=
  hashInputLayout.ser (s.blockHeight, s.sudoKey, .ofNat s.validators.size,
    .ofNat s.challenges.size, .ofNat s.pendingJobs.length)

def updateHash : ChainState T :=
  { s with stateHash := C.sha256 s.hashInput, lastUpdated := now }

def new (sudoKey : Hotkey) (config : NetworkConfig) (now : T) : ChainState T :=
  updateHash C now
    { blockHeight := 0
      epoch := 0
      config := config
      sudoKey := sudoKey
      validators := ∅
      challenges := ∅
      challengeConfigs := ∅
      mechanismConfigs := ∅
      challengeWeights := ∅
      requiredVersion := none
      pendingJobs := []
      -- all zeros, until it is hashed
      stateHash := (Hotkey.ofByte 0).key
      lastUpdated := now
      registeredHotkeys := ∅ }

def withValidators (vs : HashMap Hotkey (ValidatorInfo T)) : ChainState T :=
  { s with validators := vs }

@[simp] theorem validators_withValidators (vs : HashMap Hotkey (ValidatorInfo T)) :
    (s.withValidators vs).validators = vs := rfl

def isSudo (hotkey : Hotkey) : Bool := s.sudoKey == hotkey

def addValidator (info : ValidatorInfo T) : Except MiniChainError Unit × ChainState T :=
  if s.config.maxValidators.toNat ≤ s.validators.size then
    (.error (.consensus "Max validators reached"), s)
  else if info.stake < s.config.minStake then (.error (.consensus "Insufficient stake"), s)
  else (.ok (), updateHash C now (s.withValidators (s.validators.insert info.hotkey info)))

def removeValidator (hotkey : Hotkey) : Option (ValidatorInfo T) × ChainState T :=
  match s.validators.lookup hotkey with
  | some info => (some info, updateHash C now (s.withValidators (s.validators.erase hotkey)))
  | none => (none, s)

def addChallenge (challenge : Challenge T) : ChainState T :=
  updateHash C now { s with challenges := s.challenges.insert challenge.id challenge }

def removeChallenge (id : ChallengeId) : Option (Challenge T) × ChainState T :=
  match s.challenges.lookup id with
  | some challenge =>
    (some challenge, updateHash C now { s with challenges := s.challenges.erase id })
  | none => (none, s)

def addJob (job : Job T) : ChainState T :=
  updateHash C now { s with pendingJobs := s.pendingJobs ++ [job] }

/-- `claim_job`: the first job that nobody has been given is taken off the list. -/
def claimJob (validator : Hotkey) : Option (Job T) × ChainState T :=
  match s.pendingJobs.find? fun j => j.assignedValidator.isNone with
  | some job =>
    (some { job with assignedValidator := some validator, status := .running },
      updateHash C now
        { s with pendingJobs := s.pendingJobs.eraseP fun j => j.assignedValidator.isNone })
  | none => (none, s)

def incrementBlock : ChainState T :=
  updateHash C now { s with blockHeight := s.blockHeight + 1 }

/-! ## the hash -/

/-- The hash is the one that `update_hash` would compute. -/
def Fresh : Prop := s.stateHash = C.sha256 s.hashInput

instance : Decidable (s.Fresh C) :=
  inferInstanceAs (Decidable (_ = _))

theorem fresh_updateHash : (s.updateHash C now).Fresh C := rfl

theorem hashInput_inj {s s' : ChainState T} (h : s.hashInput = s'.hashInput) :
    s.validators.size % 2 ^ 64 = s'.validators.size % 2 ^ 64 ∧
      s.challenges.size % 2 ^ 64 = s'.challenges.size % 2 ^ 64 := by
  have hl : ∀ s : ChainState T, s.hashInput.length < 2 ^ 64 := by
    intro s
    simp [hashInput, hashInputLayout, pair, Layout.hotkey, Layout.bytes32, iso, uint, u64, array,
      s.sudoKey.key.len]
  have hlw : hashInputLayout.Lawful :=
    lawful_pair lawful_u64 (lawful_pair lawful_hotkey
      (lawful_pair lawful_u64 (lawful_pair lawful_u64 lawful_u64)))
  have hr := hlw.deserialize (hl s)
  have hr' := hlw.deserialize (hl s')
  rw [show hashInputLayout.ser _ = _ from h] at hr
  have heq := Except.ok.inj (hr.symm.trans hr')
  simp only [Prod.mk.injEq] at heq
  obtain ⟨-, -, hvl, hch, -⟩ := heq
  have hv := congrArg UInt64.toNat hvl
  have hc := congrArg UInt64.toNat hch
  exact ⟨hv, hc⟩

end ChainState

end Platform.Chain
