import Platform.Bittensor.ValidatorSync
import Platform.Subnet.Commands
import Platform.Lib.Machine

/-!
# The state hash of a node

A node changes its chain state in three ways: by the operations of `ChainState`, by the validator
sync and by the commands of the subnet owner.  The operations hash the state each time they change
it.  The sync hashes it only when it adds a validator, and the commands never do.
-/

namespace Platform.Subnet
open Platform.Core Lib Chain Bittensor HashMap

section
variable {T : Type}

/-- the operations of `ChainState` that change it -/
inductive CoreOp (T : Type) where
  | addValidator (info : ValidatorInfo T)
  | removeValidator (hotkey : Hotkey)
  | addChallenge (challenge : Challenge T)
  | removeChallenge (id : ChallengeId)
  | addJob (job : Job T)
  | claimJob (validator : Hotkey)
  | incrementBlock
  | updateHash

def CoreOp.apply (C : Crypto) (now : T) (s : ChainState T) : CoreOp T → ChainState T
  | addValidator info => (s.addValidator C now info).2
  | removeValidator hotkey => (s.removeValidator C now hotkey).2
  | addChallenge challenge => s.addChallenge C now challenge
  | removeChallenge id => (s.removeChallenge C now id).2
  | addJob job => s.addJob C now job
  | claimJob validator => (s.claimJob C now validator).2
  | incrementBlock => s.incrementBlock C now
  | updateHash => s.updateHash C now

inductive NodeOp (T : Type) where
  | core (op : CoreOp T)
  | sync (it : Iteration Hotkey) (btValidators : List MetagraphValidator)
      (banned : Option (HashSet String))
  | removeChallenge (challengeId : String)
  | kickValidator (hotkey : Hotkey)
  | banValidator (hotkey : Hotkey) (reason : String)

/-- one step of the node at a time of its clock -/
def nodeNext (C : Crypto) (fromString : String → ChallengeId) (e : CommandExecutor T) :
    T × NodeOp T → Unit × CommandExecutor T
  | (now, .core op) => ((), { e with state := op.apply C now e.state })
  | (now, .sync it btValidators banned) =>
    ((), { e with state := (updateState C now it e.state btValidators banned).2 })
  | (_, .removeChallenge challengeId) => ((), (e.removeChallenge fromString challengeId).2)
  | (_, .kickValidator hotkey) => ((), (e.kickValidator hotkey).2)
  | (now, .banValidator hotkey reason) => ((), (e.banValidator now hotkey reason).2)

/-- The step takes nothing away without hashing the state afterwards.  A sync takes nobody away if
all validators stay; it hashes the state if beside those that stay there is room for somebody who is
missing and has the stake. -/
def Rehashed (fromString : String → ChallengeId) (e : CommandExecutor T) : T × NodeOp T → Prop
  | (_, .core _) => True
  | (_, .sync _ btValidators banned) =>
    (∀ h ∈ e.state.validators.keys, Stays (metagraphMap btValidators) e.state.sudoKey h) ∨
      (keeping e.state (metagraphMap btValidators)).card < e.state.config.maxValidators.toNat ∧
        ∃ h ∈ missing e.state (metagraphMap btValidators) banned,
          ∃ v ∈ (metagraphMap btValidators).lookup h, e.state.config.minStake ≤ v.stake
  | (_, .removeChallenge challengeId) => fromString challengeId ∉ e.state.challenges
  | (_, .kickValidator hotkey) => hotkey ∉ e.state.validators
  | (_, .banValidator hotkey _) => hotkey ∉ e.state.validators

instance (fromString : String → ChallengeId) (e : CommandExecutor T) :
    ∀ i, Decidable (Rehashed fromString e i)
  | (_, .core _) => .isTrue trivial
  | (_, .sync _ _ _) => inferInstanceAs (Decidable (_ ∨ _))
  | (_, .removeChallenge _) => inferInstanceAs (Decidable (¬ _))
  | (_, .kickValidator _) => inferInstanceAs (Decidable (¬ _))
  | (_, .banValidator _ _) => inferInstanceAs (Decidable (¬ _))

variable {C : Crypto} {fromString : String → ChallengeId} {now : T} {s s' : ChainState T}
  {e e' : CommandExecutor T}

/-! ## the operations of the chain state -/

theorem CoreOp.apply_cases (C : Crypto) (now : T) (s : ChainState T) (op : CoreOp T) :
    op.apply C now s = s ∨ ∃ s₁ : ChainState T, op.apply C now s = s₁.updateHash C now := by
  cases op with
  | addValidator info =>
    simp only [apply, ChainState.addValidator]
    split
    · exact .inl rfl
    · split
      · exact .inl rfl
      · exact .inr ⟨_, rfl⟩
  | removeValidator hotkey =>
    simp only [apply, ChainState.removeValidator]
    split
    · exact .inr ⟨_, rfl⟩
    · exact .inl rfl
  | addChallenge ch | addJob job | incrementBlock | updateHash => exact .inr ⟨_, rfl⟩
  | removeChallenge id =>
    simp only [apply, ChainState.removeChallenge]
    split
    · exact .inr ⟨_, rfl⟩
    · exact .inl rfl
  | claimJob who =>
    simp only [apply, ChainState.claimJob]
    split
    · exact .inr ⟨_, rfl⟩
    · exact .inl rfl

theorem CoreOp.fresh (op : CoreOp T) (hfr : s.Fresh C) : (op.apply C now s).Fresh C := by
  rcases op.apply_cases C now s with h | ⟨s₁, h⟩
  · rw [h]
    exact hfr
  · rw [h]
    exact ChainState.fresh_updateHash C now s₁

/-! ## changes that are not hashed -/

theorem fresh_iff_of_kept (hsp : C.Separates [s.hashInput, s'.hashInput]) (hfr : s.Fresh C)
    (hk : s'.stateHash = s.stateHash) : s'.Fresh C ↔ s.hashInput = s'.hashInput := by
  rw [ChainState.Fresh, hk, hfr]
  constructor
  · intro h
    exact hsp _ List.mem_cons_self _ (List.mem_cons_of_mem _ List.mem_cons_self) h
  · exact congrArg C.sha256

theorem hashInput_withValidators {vs : HashMap Hotkey (ValidatorInfo T)}
    (hsz : vs.size = s.validators.size) : s.hashInput = (s.withValidators vs).hashInput := by
  simp only [ChainState.hashInput, ChainState.validators_withValidators, hsz]
  rfl

theorem fresh_withValidators_iff {vs : HashMap Hotkey (ValidatorInfo T)}
    (hsp : C.Separates [s.hashInput, (s.withValidators vs).hashInput]) (hfr : s.Fresh C)
    (hle : vs.size ≤ s.validators.size) (hsz : s.validators.size < 2 ^ 64) :
    (s.withValidators vs).Fresh C ↔ vs.size = s.validators.size := by
  rw [fresh_iff_of_kept hsp hfr rfl]
  constructor
  · intro h
    have hcn := (ChainState.hashInput_inj h).1
    rw [ChainState.validators_withValidators, Nat.mod_eq_of_lt hsz,
      Nat.mod_eq_of_lt (by omega)] at hcn
    exact hcn.symm
  · exact hashInput_withValidators

theorem fresh_erase_validator_iff {h : Hotkey}
    (hsp : C.Separates [s.hashInput, (s.withValidators (s.validators.erase h)).hashInput])
    (hfr : s.Fresh C) (hsz : s.validators.size < 2 ^ 64) :
    (s.withValidators (s.validators.erase h)).Fresh C ↔ h ∉ s.validators := by
  by_cases hm : h ∈ s.validators
  · have her := size_erase_of_mem hm
    rw [fresh_withValidators_iff hsp hfr (by omega) hsz]
    simp only [hm, not_true_eq_false, iff_false]
    omega
  · rw [erase_of_lookup_none (AList.lookup_eq_none.mpr hm)]
    exact ⟨fun _ => hm, fun _ => hfr⟩

theorem fresh_erase_challenge_iff {id : ChallengeId}
    (hsp : C.Separates [s.hashInput,
      ChainState.hashInput { s with challenges := s.challenges.erase id }])
    (hfr : s.Fresh C) :
    ChainState.Fresh C { s with challenges := s.challenges.erase id } ↔ id ∉ s.challenges := by
  by_cases hm : id ∈ s.challenges
  · have her := size_erase_of_mem hm
    rw [fresh_iff_of_kept hsp hfr rfl]
    simp only [hm, not_true_eq_false, iff_false]
    intro h
    have hcn := (ChainState.hashInput_inj h).2
    dsimp only at hcn
    omega
  · rw [erase_of_lookup_none (AList.lookup_eq_none.mpr hm)]
    exact ⟨fun _ => hm, fun _ => hfr⟩

theorem fresh_sync_iff {it : Iteration Hotkey} {bts : List MetagraphValidator}
    {banned : Option (HashSet String)}
    (hsp : C.Separates [s.hashInput, (updateState C now it s bts banned).2.hashInput])
    (hfr : s.Fresh C) (hsz : s.validators.size < 2 ^ 64) :
    (updateState C now it s bts banned).2.Fresh C ↔
      (∀ h ∈ s.validators.keys, Stays (metagraphMap bts) s.sudoKey h) ∨
        (keeping s (metagraphMap bts)).card < s.config.maxValidators.toNat ∧
          ∃ h ∈ missing s (metagraphMap bts) banned,
            ∃ v ∈ (metagraphMap bts).lookup h, s.config.minStake ≤ v.stake := by
  simp only [Option.mem_def]
  rw [← removed_updateState_eq_zero s C now banned it, ← added_updateState_pos s C now banned it]
  have hcn := size_updateState_eq s C now banned it bts
  have hsa := state_updateState s C now banned it bts
  by_cases ha : (updateState C now it s bts banned).1.added = 0
  · rw [if_pos ha] at hsa
    rw [hsa] at hsp ⊢
    rw [fresh_withValidators_iff hsp hfr (by omega) hsz]
    omega
  · rw [if_neg ha] at hsa
    rw [hsa]
    exact ⟨fun _ => .inr (by omega), fun _ => ChainState.fresh_updateHash C now _⟩

/-! ## steps and runs -/

theorem state_kickValidator (hotkey : Hotkey) : (e.kickValidator hotkey).2.state =
    e.state.withValidators (e.state.validators.erase hotkey) := by
  unfold CommandExecutor.kickValidator
  split
  · rfl
  · next hn =>
    rw [erase_of_lookup_none hn]
    rfl

theorem fresh_next_iff (i : T × NodeOp T)
    (hsp : C.Separates [e.state.hashInput, (nodeNext C fromString e i).2.state.hashInput])
    (hfr : e.state.Fresh C) (hsz : e.state.validators.size < 2 ^ 64) :
    (nodeNext C fromString e i).2.state.Fresh C ↔ Rehashed fromString e i := by
  obtain ⟨now, op⟩ := i
  cases op with
  | core op => exact ⟨fun _ => trivial, fun _ => op.fresh hfr⟩
  | sync it bts banned => exact fresh_sync_iff hsp hfr hsz
  | removeChallenge cid => exact fresh_erase_challenge_iff hsp hfr
  | kickValidator hotkey =>
    have hk : (nodeNext C fromString e (now, .kickValidator hotkey)).2.state =
        e.state.withValidators (e.state.validators.erase hotkey) := state_kickValidator hotkey
    rw [hk] at hsp ⊢
    exact fresh_erase_validator_iff hsp hfr hsz
  | banValidator hotkey why => exact fresh_erase_validator_iff hsp hfr hsz

theorem CoreOp.size_lt (op : CoreOp T) (hsz : s.validators.size < 2 ^ 64) :
    (op.apply C now s).validators.size < 2 ^ 64 := by
  cases op with
  | addValidator info =>
    simp only [apply, ChainState.addValidator]
    split
    · exact hsz
    · next hrm =>
      split
      · exact hsz
      · show size (s.validators.insert info.hotkey info) < 2 ^ 64
        have hcp := s.config.maxValidators.toNat_lt
        by_cases hm : info.hotkey ∈ s.validators
        · rw [size_insert_of_mem hm]
          exact hsz
        · rw [size_insert_of_notMem hm]
          omega
  | removeValidator hotkey =>
    simp only [apply, ChainState.removeValidator]
    split
    · exact (size_erase_le s.validators hotkey).trans_lt hsz
    · exact hsz
  | removeChallenge id =>
    simp only [apply, ChainState.removeChallenge]
    split
    · exact hsz
    · exact hsz
  | claimJob who =>
    simp only [apply, ChainState.claimJob]
    split
    · exact hsz
    · exact hsz
  | addChallenge ch | addJob job | incrementBlock | updateHash => exact hsz

theorem size_next_lt (i : T × NodeOp T) (hsz : e.state.validators.size < 2 ^ 64) :
    (nodeNext C fromString e i).2.state.validators.size < 2 ^ 64 := by
  obtain ⟨now, op⟩ := i
  cases op with
  | core op => exact op.size_lt hsz
  | sync it bts banned =>
    have hcp := e.state.config.maxValidators.toNat_lt
    exact size_updateState_le.trans_lt (max_lt hsz hcp)
  | removeChallenge cid => exact hsz
  | kickValidator hotkey =>
    show (e.kickValidator hotkey).2.state.validators.size < 2 ^ 64
    rw [state_kickValidator]
    exact (size_erase_le e.state.validators hotkey).trans_lt hsz
  | banValidator hotkey why => exact (size_erase_le e.state.validators hotkey).trans_lt hsz

def hashInputs (l : List (Call (CommandExecutor T) (T × NodeOp T) Unit)) : List Bytes :=
  l.flatMap fun k => [k.before.state.hashInput, k.after.state.hashInput]

/-- **The state hash is fresh after every step** of a run from a fresh state if and only if no step
takes a validator or a challenge away without hashing the state afterwards.  A kick of a validator
does. -/
theorem fresh_iff {e₀ : CommandExecutor T} {l : List (Call (CommandExecutor T) (T × NodeOp T) Unit)}
    (hrun : MachineRun (nodeNext C fromString) e₀ l e) (hsep : C.Separates (hashInputs l))
    (hfresh : e₀.state.Fresh C) (hsize : e₀.state.validators.size < 2 ^ 64) :
    (∀ k ∈ l, k.after.state.Fresh C) ↔ ∀ k ∈ l, Rehashed fromString k.before k.input := by
  have hal : ((∀ k ∈ l, k.after.state.Fresh C) ↔ ∀ k ∈ l, Rehashed fromString k.before k.input) ∧
      ((∀ k ∈ l, k.after.state.Fresh C) → e.state.Fresh C) ∧ e.state.validators.size < 2 ^ 64 := by
    induction hrun with
    | nil => exact ⟨by simp, fun _ => hfresh, hsize⟩
    | @snoc l e e' k hrun hstep ih =>
      have hip : hashInputs (l ++ [k]) = hashInputs l ++ hashInputs [k] := List.flatMap_append
      rw [hip] at hsep
      obtain ⟨hif, hls, hsize⟩ := ih (hsep.mono (List.subset_append_left _ _))
      have ha := hstep.after_eq
      obtain ⟨rfl, rfl, -⟩ := hstep
      have hsp : C.Separates [k.before.state.hashInput, k.after.state.hashInput] :=
        hsep.mono (List.subset_append_right _ _)
      refine ⟨?_, fun hk => hk k (List.mem_append_right _ List.mem_cons_self), ?_⟩
      · simp only [List.forall_mem_append, List.forall_mem_singleton]
        rw [← hif]
        apply and_congr_right
        intro hl
        rw [ha] at hsp ⊢
        exact fresh_next_iff k.input hsp (hls hl) hsize
      · rw [ha]
        exact size_next_lt k.input hsize
  exact hal.1

end

/-- a "hash" that shows the end of the data, where the counts are -/
def tailCrypto : Crypto :=
  { sampleCrypto with sha256 := fun data => sampleCrypto.sha256 data.reverse }

def sampleSteps (ops : List (NodeOp Unit)) :
    List (Call (CommandExecutor Unit) (Unit × NodeOp Unit) Unit) × CommandExecutor Unit :=
  trace (nodeNext tailCrypto fun _ => ⟨(Hotkey.ofByte 0).key.bytes.take 16, rfl⟩)
    ⟨.ofByte 7, .new tailCrypto (.ofByte 7) .default (), .new⟩ (ops.map ((), ·))

def sampleSync : List (NodeOp Unit) :=
  [.core (.addValidator (.new (.ofByte 1) 1000000000 ())),
    .sync .asListed [⟨.ofByte 2, 1000000000, true⟩] none, .kickValidator (.ofByte 1)]

theorem fresh_after_sync : (sampleSteps sampleSync).1.length = 3 ∧
    ∀ k ∈ (sampleSteps sampleSync).1, k.after.state.Fresh tailCrypto :=
  ⟨rfl, (fresh_iff (machineRun_trace _ _ _) (by decide +kernel) (by decide +kernel)
    (by decide +kernel)).mpr (by decide +kernel)⟩

def sampleLast (op : NodeOp Unit) :
    List (Call (CommandExecutor Unit) (Unit × NodeOp Unit) Unit) :=
  (sampleSteps [.core (.addValidator (.new (.ofByte 1) 1000000000 ())), op]).1

/-- After a kick, a ban or a sync that only removes, the hash is that of the state before. -/
theorem kick_leaves_stale :
    ¬ (∀ k ∈ sampleLast (.kickValidator (.ofByte 1)), k.after.state.Fresh tailCrypto) ∧
    ¬ (∀ k ∈ sampleLast (.banValidator (.ofByte 1) "offline"), k.after.state.Fresh tailCrypto) ∧
    ¬ ∀ k ∈ sampleLast (.sync .asListed [] none), k.after.state.Fresh tailCrypto := by
  decide +kernel

end Platform.Subnet
