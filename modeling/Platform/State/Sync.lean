import Platform.State.Steps

/-!
# What state sync rests on

A validator takes over the state of a peer when its sequence is higher and its hash is right.  The
hash covers six numbers, three of them the sizes of maps, and the sequence is not incremented by the
two operations that validators call most, so neither says what the state contains.
-/

namespace Platform.State
open Lib Platform.Core

/-! ## the hash -/

section
variable {F : Type}

/-- the fields of `HashInput` -/
def ChainState.summary (s : ChainState F) :
    UInt64 × UInt64 × UInt64 × UInt64 × UInt64 × UInt16 :=
  (s.sequence, s.epoch, .ofNat s.validators.size, .ofNat s.challenges.size,
    .ofNat s.pendingEvaluations.size, s.netuid)

variable (C : Crypto) (now : Int) (s t : ChainState F)

theorem hashInput_eq_iff : s.hashInput = t.hashInput ↔ s.summary = t.summary := by
  constructor
  · intro h
    obtain ⟨h, hnt⟩ := List.append_inj h (by simp)
    obtain ⟨h, hp⟩ := List.append_inj h (by simp)
    obtain ⟨h, hch⟩ := List.append_inj h (by simp)
    obtain ⟨h, hvl⟩ := List.append_inj h (by simp)
    obtain ⟨hsq, he⟩ := List.append_inj h (by simp)
    unfold ChainState.summary
    rw [encodeU64_inj hsq, encodeU64_inj he, encodeU64_inj hvl,
      encodeU64_inj hch, encodeU64_inj hp, encodeU16_inj hnt]
  · intro h
    simp only [ChainState.summary, Prod.mk.injEq] at h
    obtain ⟨hsq, he, hvl, hch, hp, hnt⟩ := h
    unfold ChainState.hashInput
    rw [hsq, he, hvl, hch, hp, hnt]

def Hashed (s : ChainState F) : Prop := s.stateHash = C.sha256 s.hashInput

theorem hashed_updateHash (s : ChainState F) : Hashed C (s.updateHash C now) := rfl

theorem hashed_incrementSequence (s : ChainState F) : Hashed C (s.incrementSequence C now) := rfl

theorem Effect.hashed [F64 F] {C : Crypto} {now : Int} {s s' : ChainState F} {op : StateOp F}
    {out : StateOut F} (h : Effect C now s op out s') (hs : Hashed C s) : Hashed C s' := by
  cases h with
  | rehashed | evaluated | voted => exact hashed_updateHash _ _ _
  | registered | evaluationAdded | completed | finalized | epochEnded =>
    exact hashed_incrementSequence _ _ _
  | absent | evaluationRefused | notCompleted | voteRefused | voteStale | notFinalized => exact hs

/-- the states in question: accepted from a peer, or reached by operations on a new one -/
inductive Sourced [F64 F] (C : Crypto) : ChainState F → Prop
  | synced {now : Int} {current s : ChainState F}
      (h : (applySyncState C now current s).1 = .ok ()) : Sourced C s
  | run {now : Int} {sudoKey : Hotkey} {netuid : UInt16} {l : List (StateCall F)} {s : ChainState F}
      (h : StateRun C (ChainState.withSudo C now sudoKey netuid) l s) : Sourced C s

theorem applySyncState_ok {C : Crypto} {now : Int} {current s : ChainState F}
    (h : (applySyncState C now current s).1 = .ok ()) :
    current.sequence < s.sequence ∧ Hashed C s := by
  unfold applySyncState at h
  split at h
  · cases h
  · rename_i hsq
    dsimp only at h
    split at h
    · cases h
    · rename_i hh
      exact ⟨UInt64.not_le.mp hsq, (not_not.mp hh).symm⟩

theorem Sourced.hashed [F64 F] {C : Crypto} {s : ChainState F} (h : Sourced C s) : Hashed C s := by
  cases h with
  | synced h => exact (applySyncState_ok h).2
  | run h =>
    refine Run.invariant (hashed_updateHash _ _ _) ?_ h
    intro s c s' hs hst
    exact (effect_of_step hst).hashed hs

structure SameRecord (r r' : EvaluationRecord F) : Prop where
  evaluations : ∀ v, r.evaluations.lookup v = r'.evaluations.lookup v
  fields : { r with evaluations := ∅ } = { r' with evaluations := ∅ }

structure SameVotes (w w' : WeightVotes) : Prop where
  votes : ∀ v, w.votes.lookup v = w'.votes.lookup v
  fields : { w with votes := ∅ } = { w' with votes := ∅ }

/-- Equal contents: the same entries in every map, in whatever order. -/
structure SameContents : Prop where
  validators : ∀ k, s.validators.lookup k = t.validators.lookup k
  challenges : ∀ k, s.challenges.lookup k = t.challenges.lookup k
  pending : ∀ id, Option.Rel SameRecord (s.pendingEvaluations.lookup id)
    (t.pendingEvaluations.lookup id)
  weightVotes : Option.Rel SameVotes s.weightVotes t.weightVotes
  historical : ∀ e, s.historicalWeights.lookup e = t.historicalWeights.lookup e
  sudoKey : s.sudoKey = t.sudoKey

def NoCollision : Prop :=
  C.sha256 s.hashInput = C.sha256 t.hashInput → s.hashInput = t.hashInput

instance : Decidable (NoCollision C s t) :=
  inferInstanceAs (Decidable (_ → _))

theorem NoCollision.sha256_eq_iff {C : Crypto} {s t : ChainState F} (h : NoCollision C s t) :
    C.sha256 s.hashInput = C.sha256 t.hashInput ↔ s.summary = t.summary := by
  rw [← hashInput_eq_iff]
  exact ⟨h, congrArg C.sha256⟩

theorem applySyncState_mismatch_iff (current s : ChainState F)
    (hsq : current.sequence < s.sequence) :
    (applySyncState C now current s).1 = .error (.hashMismatch (hexEncode s.stateHash.bytes)
      (hexEncode (C.sha256 s.hashInput).bytes)) ↔ ¬ Hashed C s := by
  unfold applySyncState
  rw [if_neg (UInt64.not_le.mpr hsq)]
  by_cases h : (s.updateHash C now).stateHash = s.stateHash
  · rw [if_neg (not_not.mpr h)]
    have hs : Hashed C s := h.symm
    simp [hs]
  · rw [if_pos h]
    have hs : ¬ Hashed C s := fun hs => h hs.symm
    simp only [hs, not_false_eq_true, iff_true]
    rfl

/-- **The state hash binds the contents exactly as far as its summary does.**  For two states that
were accepted from a peer or reached by operations, equal hashes mean equal contents if and only if
equal summaries do; and a copy that was altered under the old hash is refused for it if and only if
the alteration shows in the summary. -/
theorem hash_binds_iff [F64 F] (C : Crypto) (s t : ChainState F) (hs : Sourced C s)
    (ht : Sourced C t) (hcol : NoCollision C s t) :
    ((s.stateHash = t.stateHash → SameContents s t) ↔ (s.summary = t.summary → SameContents s t)) ∧
    ∀ (altered current : ChainState F) (now : Int), altered.stateHash = s.stateHash →
      current.sequence < altered.sequence → NoCollision C s altered →
      ((¬ SameContents s altered → (applySyncState C now current altered).1 =
          .error (.hashMismatch (hexEncode altered.stateHash.bytes)
            (hexEncode (C.sha256 altered.hashInput).bytes))) ↔
        (s.summary = altered.summary → SameContents s altered)) := by
  have hs' : s.stateHash = C.sha256 s.hashInput := hs.hashed
  have ht' : t.stateHash = C.sha256 t.hashInput := ht.hashed
  refine ⟨by rw [hs', ht', hcol.sha256_eq_iff], ?_⟩
  intro altered current now hh hsq hc'
  have ho : Hashed C altered ↔ s.summary = altered.summary := by
    rw [Hashed, hh, hs', hc'.sha256_eq_iff]
  rw [applySyncState_mismatch_iff C now current altered hsq, ho]
  exact not_imp_not

def oneValidator (stake : UInt64) (now : Int) : ChainState ℚ :=
  (ChainState.new sampleCrypto 0 1).updateValidator sampleCrypto now (.ofByte 1) stake

theorem sourced_oneValidator (stk : UInt64) (now : Int) :
    Sourced sampleCrypto (oneValidator stk now) :=
  .run (machineRun_trace (stateNext sampleCrypto) (ChainState.withSudo sampleCrypto 0 _ 1)
    [(now, .updateValidator (.ofByte 1) stk)])

/-- Two states with the same validator, made at different times: the hashes and the contents are
the same. -/
theorem hash_binds_sample :
    (oneValidator 5 1).stateHash = (oneValidator 5 2).stateHash ∧
      SameContents (oneValidator 5 1) (oneValidator 5 2) := by
  have hs : SameContents (oneValidator 5 1) (oneValidator 5 2) :=
    ⟨fun _ => rfl, fun _ => rfl, fun _ => .none, .none, fun _ => rfl, rfl⟩
  have hh : (oneValidator 5 1).stateHash = (oneValidator 5 2).stateHash := by decide +kernel
  have hbn := hash_binds_iff sampleCrypto (oneValidator 5 1) (oneValidator 5 2)
    (sourced_oneValidator 5 1) (sourced_oneValidator 5 2) (by decide +kernel)
  exact ⟨hh, hbn.1.mpr (fun _ => hs) hh⟩

/-- **The stake is not hashed.**  One validator with stake 5, and the same one with stake 6. -/
theorem hash_binds_stake :
    ¬ ∀ (C : Crypto) (s t : ChainState ℚ), Sourced C s → Sourced C t → NoCollision C s t →
      s.stateHash = t.stateHash → SameContents s t := by
  intro h
  have hs := h sampleCrypto (oneValidator 5 1) (oneValidator 6 1) (sourced_oneValidator 5 1)
    (sourced_oneValidator 6 1) (by decide +kernel) (by decide +kernel)
  have hst := hs.validators (.ofByte 1)
  revert hst
  decide +kernel

end

/-! ## the sequence -/

section
variable {F : Type}

/-- what the sequence is to version -/
structure Contents (F : Type) where
  validators : HashMap Hotkey UInt64
  challenges : HashMap ChallengeId ChallengeConfig
  pendingEvaluations : HashMap String (EvaluationRecord F)
  completedEvaluations : HashMap UInt64 (List (EvaluationRecord F))
  weightVotes : Option WeightVotes
  historicalWeights : HashMap UInt64 Weights
  epoch : UInt64
deriving DecidableEq

def ChainState.contents (s : ChainState F) : Contents F :=
  ⟨s.validators, s.challenges, s.pendingEvaluations, s.completedEvaluations, s.weightVotes,
    s.historicalWeights, s.epoch⟩

def Advances (s t : ChainState F) : Prop :=
  (t.sequence = s.sequence ∧ t.contents = s.contents) ∨ s.sequence < t.sequence

theorem Advances.refl (s : ChainState F) : Advances s s := Or.inl ⟨rfl, rfl⟩

theorem Advances.trans {s t u : ChainState F} (h : Advances s t) (h' : Advances t u) :
    Advances s u := by
  rcases h with ⟨hsq, hcn⟩ | hlt
  · rcases h' with ⟨hsq', hcn'⟩ | hlt'
    · exact Or.inl ⟨hsq'.trans hsq, hcn'.trans hcn⟩
    · exact Or.inr (hsq ▸ hlt')
  · rcases h' with ⟨hsq', -⟩ | hlt'
    · exact Or.inr (hsq'.symm ▸ hlt)
    · exact Or.inr (UInt64.lt_trans hlt hlt')

theorem Advances.le {s t : ChainState F} (h : Advances s t) : s.sequence ≤ t.sequence := by
  rcases h with ⟨hsq, -⟩ | hlt
  · exact UInt64.le_of_eq hsq.symm
  · exact UInt64.le_of_lt hlt

theorem lt_add_one {x : UInt64} (h : x.toNat + 1 < 2 ^ 64) : x < x + 1 := by
  have ha : (x + 1).toNat = x.toNat + 1 := by exact Nat.mod_eq_of_lt h
  rw [UInt64.lt_iff_toNat_lt, ha]
  exact Nat.lt_succ_self _

variable [F64 F]

def storesQuietly (C : Crypto) (c : StateCall F) : Bool :=
  match c.input.2 with
  | .addValidatorEvaluation id v x sig =>
    decide (checkSigned C v (evaluationSigningBytes id x.score) sig = .ok ()) &&
      (c.before.pendingEvaluations.lookup id).isSome
  | .addWeightVoteVerified v w e sig =>
    decide (Signed C c.before v w e sig) &&
      c.before.weightVotes.all fun votes => decide (votes.epoch = e) && !votes.finalized
  | _ => false

def Versioned (C : Crypto) (c : StateCall F) : Prop :=
  storesQuietly C c = false ∧ c.before.sequence.toNat + 1 < 2 ^ 64

instance (C : Crypto) (c : StateCall F) : Decidable (Versioned C c) :=
  inferInstanceAs (Decidable (_ ∧ _))

theorem advances_of_step {C : Crypto} {s s' : ChainState F} {c : StateCall F}
    (hst : CallStep (stateNext C) s c s') (hv : Versioned C c) : Advances s s' := by
  obtain ⟨hqt, hsq⟩ := hv
  have he := effect_of_step hst
  unfold storesQuietly at hqt
  rw [hst.1] at hqt hsq
  generalize c.input.2 = op, c.out = out at he hqt
  cases he with
  | rehashed => exact Or.inl ⟨rfl, rfl⟩
  | registered | evaluationAdded | completed | finalized | epochEnded =>
    exact Or.inr (lt_add_one hsq)
  | absent | evaluationRefused | notCompleted | voteRefused | voteStale | notFinalized =>
    exact Advances.refl s
  | evaluated hs hr => simp [hs, hr] at hqt
  | voted hs hvt he hf =>
    -- a container that takes the vote is there, or is made for it
    cases hw : s.weightVotes with
    | none => simp [hs, hw] at hqt
    | some vs =>
      rw [hw] at hvt
      subst hvt
      simp [hs, hw, he, hf] at hqt

theorem advances_of_run {C : Crypto} {s s' : ChainState F} {l : List (StateCall F)}
    (h : StateRun C s l s') (hv : ∀ c ∈ l, Versioned C c) : Advances s s' := by
  refine Run.guarded (Advances.refl s) ?_ h hv
  intro t c t' ht hc hst
  exact ht.trans (advances_of_step hst hc)

/-- **The sequence versions the state**, in every run that stores no evaluation and no weight vote
and does not use up the sequence numbers: a call that changes the contents increments the sequence,
two states of the run with the same sequence have the same contents, and no state of the run is
replaced by an earlier one. -/
theorem sequence_versions (C : Crypto) (s₀ s : ChainState F) (l : List (StateCall F))
    (h : StateRun C s₀ l s) (hv : ∀ c ∈ l, Versioned C c) :
    (∀ c ∈ l, c.after.contents ≠ c.before.contents → c.before.sequence < c.after.sequence) ∧
    ∀ l₁ l₂ s₁, l = l₁ ++ l₂ → StateRun C s₀ l₁ s₁ → StateRun C s₁ l₂ s →
      (s.sequence = s₁.sequence → s.contents = s₁.contents) ∧
      ∀ now, applySyncState C now s s₁ = (.error (.sequenceTooOld s.sequence s₁.sequence), s) := by
  constructor
  · intro c hc hne
    obtain ⟨l₁, l₂, s₁, s₂, -, -, hst, -⟩ := Run.mem_split h hc
    have ha := advances_of_step hst (hv c hc)
    rw [← hst.1, ← hst.2.1] at ha
    rcases ha with ⟨-, hcn⟩ | hlt
    · exact absurd hcn hne
    · exact hlt
  · rintro l₁ l₂ s₁ rfl - hrun
    have ha := advances_of_run hrun fun c hc => hv c (List.mem_append_right _ hc)
    constructor
    · intro hsq
      rcases ha with ⟨-, hcn⟩ | hlt
      · exact hcn
      · rw [hsq] at hlt
        exact absurd hlt (UInt64.lt_irrefl _)
    · intro now
      unfold applySyncState
      rw [if_pos ha.le]

/-- A validator joins, nothing is there to remove or to finalize, and the epoch ends. -/
theorem sequence_versions_sample :
    let run := sampleTrace [.updateValidator (.ofByte 1) 5, .updateHash,
      .removeValidator (.ofByte 2), .finalizeWeights, .nextEpoch]
    run.2.sequence = 2 ∧
      ∀ c ∈ run.1, c.after.contents ≠ c.before.contents → c.before.sequence < c.after.sequence :=
  ⟨by decide +kernel,
    (sequence_versions sampleCrypto _ _ _ (stateRun_sampleTrace _) (by decide +kernel)).1⟩

/-- **A stored vote keeps the sequence.**  The first weight vote of an epoch makes the container,
and the sequence is the same before and after it. -/
theorem sequence_versions_vote :
    ¬ ∀ (C : Crypto) (now : Int) (netuid : UInt16) (l : List (StateCall ℚ)) (s : ChainState ℚ),
      StateRun C (ChainState.new C now netuid) l s →
      ∀ c ∈ l, c.after.contents ≠ c.before.contents → c.before.sequence < c.after.sequence := by
  intro h
  have hrun := stateRun_sampleTrace [.updateValidator (.ofByte 1) 5, sampleVote 1 [(0, 1)] 0]
  have ha := h _ _ _ _ _ hrun
  revert ha
  decide +kernel

end

end Platform.State
