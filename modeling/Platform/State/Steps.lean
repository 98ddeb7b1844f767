import Platform.State.ChainState
import Platform.Lib.Machine

/-!
# Operations on the chain state and their runs

`StateOp` has one constructor for every public operation that writes a `ChainState`, `stateNext`
carries one out, and `Effect` lists what it can do, with the guards: the results about runs split on
it and never unfold an operation.
-/

namespace Platform.State
open Lib Platform.Core ChainState

inductive StateOp (F : Type) where
  | updateHash
  | incrementSequence
  | linkToBittensorBlock (blockNumber : UInt64) (blockHash : Bytes32)
  | updateValidator (hotkey : Hotkey) (stake : UInt64)
  | removeValidator (hotkey : Hotkey)
  | addChallenge (config : ChallengeConfig)
  | removeChallenge (id : ChallengeId)
  | addEvaluation (record : EvaluationRecord F)
  | addValidatorEvaluation (submissionId : String) (validator : Hotkey)
      (evaluation : ValidatorEvaluation F) (signature : Bytes)
  | finalizeEvaluation (finalizedAt : Int) (submissionId : String)
  | addWeightVoteVerified (validator : Hotkey) (weights : Weights) (epoch : UInt64)
      (signature : Bytes)
  | finalizeWeights
  | nextEpoch
deriving DecidableEq

/-- what the operations return -/
inductive StateOut (F : Type) where
  | unit
  | removed (present : Bool)
  | challenge (config : Option ChallengeConfig)
  | result (r : Except StateError Unit)
  | score (r : Except StateError F)
  | weights (w : Option Weights)
deriving DecidableEq

section
variable {F : Type} [F64 F]

/-- one operation at time `a.1` -/
def stateNext (C : Crypto) (s : ChainState F) (a : Int × StateOp F) : StateOut F × ChainState F :=
  match a.2 with
  | .updateHash => (.unit, s.updateHash C a.1)
  | .incrementSequence => (.unit, s.incrementSequence C a.1)
  | .linkToBittensorBlock n h => (.unit, s.linkToBittensorBlock C a.1 n h)
  | .updateValidator k stake => (.unit, s.updateValidator C a.1 k stake)
  | .removeValidator k => (s.removeValidator C a.1 k).map .removed id
  | .addChallenge config => (.unit, s.addChallenge C a.1 config)
  | .removeChallenge cid => (s.removeChallenge C a.1 cid).map .challenge id
  | .addEvaluation record => (.unit, s.addEvaluation C a.1 record)
  | .addValidatorEvaluation sid v x sig =>
    (s.addValidatorEvaluation C a.1 sid v x sig).map .result id
  | .finalizeEvaluation t sid => (s.finalizeEvaluation C a.1 t sid).map .score id
  | .addWeightVoteVerified v w e sig => (s.addWeightVoteVerified C a.1 v w e sig).map .result id
  | .finalizeWeights => (s.finalizeWeights C a.1).map .weights id
  | .nextEpoch => (.unit, s.nextEpoch C a.1)

abbrev StateCall (F : Type) := Call (ChainState F) (Int × StateOp F) (StateOut F)

abbrev StateRun (C : Crypto) (s₀ : ChainState F) (l : List (StateCall F)) (s : ChainState F) :
    Prop :=
  MachineRun (stateNext C) s₀ l s

def StateOp.registers : StateOp F → Bool
  | .incrementSequence | .linkToBittensorBlock _ _ | .updateValidator _ _ | .removeValidator _
  | .addChallenge _ | .removeChallenge _ => true
  | _ => false

def Signed (C : Crypto) (s : ChainState F) (v : Hotkey) (w : Weights) (e : UInt64) (sig : Bytes) :
    Prop :=
  checkSigned C v (weightVoteSigningBytes e s.netuid w) sig = .ok ()

instance (C : Crypto) (s : ChainState F) (v : Hotkey) (w : Weights) (e : UInt64) (sig : Bytes) :
    Decidable (Signed C s v w e sig) := by
  unfold Signed
  infer_instance

/-- **What an operation can do**: its output and the state after it. -/
inductive Effect (C : Crypto) (now : Int) (s : ChainState F) :
    StateOp F → StateOut F → ChainState F → Prop
  | rehashed : Effect C now s .updateHash .unit (s.updateHash C now)
  | registered {op : StateOp F} {out : StateOut F} (hop : op.registers = true)
      (vs : HashMap Hotkey UInt64) (cs : HashMap ChallengeId ChallengeConfig) (n : UInt64)
      (h : Bytes32) :
      Effect C now s op out (incrementSequence C now
        { s with validators := vs, challenges := cs, bittensorBlock := n, bittensorBlockHash := h })
  | absent {op : StateOp F} {out : StateOut F} (hop : op.registers = true) : Effect C now s op out s
  | evaluationAdded (r : EvaluationRecord F) :
      Effect C now s (.addEvaluation r) .unit (s.addEvaluation C now r)
  | evaluationRefused {id : String} {v : Hotkey} {x : ValidatorEvaluation F} {sig : Bytes}
      (e : StateError) :
      Effect C now s (.addValidatorEvaluation id v x sig) (.result (.error e)) s
  | evaluated {id : String} {v : Hotkey} {x : ValidatorEvaluation F} {sig : Bytes}
      {r : EvaluationRecord F}
      (hsig : checkSigned C v (evaluationSigningBytes id x.score) sig = .ok ())
      (hr : s.pendingEvaluations.lookup id = some r) :
      Effect C now s (.addValidatorEvaluation id v x sig) (.result (.ok ()))
        (updateHash C now
          { s with
            pendingEvaluations := s.pendingEvaluations.insert id
              ({ r with evaluations := r.evaluations.insert v x }) })
  | notCompleted {t : Int} {id : String} {out : Except StateError F} :
      Effect C now s (.finalizeEvaluation t id) (.score out) s
  | completed {t : Int} {id : String} {r : EvaluationRecord F} (a : F)
      (hr : s.pendingEvaluations.lookup id = some r) :
      Effect C now s (.finalizeEvaluation t id) (.score (.ok a))
        (incrementSequence C now
          { s with
            pendingEvaluations := s.pendingEvaluations.erase id
            completedEvaluations := s.completedEvaluations.insert s.epoch
              ((s.completedEvaluations.lookup s.epoch).getD [] ++ [completed r a t]) })
  | voteRefused {v : Hotkey} {w : Weights} {e : UInt64} {sig : Bytes} (err : StateError)
      (hsig : ¬ Signed C s v w e sig) :
      Effect C now s (.addWeightVoteVerified v w e sig) (.result (.error err)) s
  | voteStale {v : Hotkey} {w : Weights} {e : UInt64} {sig : Bytes} {votes : WeightVotes}
      (hsig : Signed C s v w e sig) (hvotes : s.weightVotes = some votes)
      (hstale : ¬ (votes.epoch = e ∧ votes.finalized = false)) :
      Effect C now s (.addWeightVoteVerified v w e sig) (.result (.ok ())) s
  | voted {v : Hotkey} {w : Weights} {e : UInt64} {sig : Bytes} {votes : WeightVotes}
      (hsig : Signed C s v w e sig) (hvotes : votes = s.weightVotes.getD (s.emptyVotes e))
      (he : votes.epoch = e) (hfin : votes.finalized = false) :
      Effect C now s (.addWeightVoteVerified v w e sig) (.result (.ok ()))
        (updateHash C now
          { s with weightVotes := some { votes with votes := votes.votes.insert v w } })
  | notFinalized {out : Option Weights} : Effect C now s .finalizeWeights (.weights out) s
  | finalized {votes : WeightVotes} (ws : Weights) (hvotes : s.weightVotes = some votes)
      (hfin : votes.finalized = false) :
      Effect C now s .finalizeWeights (.weights (some ws))
        (incrementSequence C now
          { s with
            weightVotes := some { votes with finalWeights := some ws, finalized := true }
            historicalWeights := s.historicalWeights.insert votes.epoch ws })
  | epochEnded : Effect C now s .nextEpoch .unit (s.nextEpoch C now)

variable {C : Crypto} {now : Int}

variable (s : ChainState F)

section
include s

theorem effect_removeValidator (k : Hotkey) :
    Effect C now s (.removeValidator k) (.removed (s.removeValidator C now k).1)
      (s.removeValidator C now k).2 := by
  unfold removeValidator
  cases s.validators.lookup k with
  | some stk => exact .registered rfl _ _ _ _
  | none => exact .absent rfl

theorem effect_removeChallenge (id : ChallengeId) :
    Effect C now s (.removeChallenge id) (.challenge (s.removeChallenge C now id).1)
      (s.removeChallenge C now id).2 := by
  unfold removeChallenge
  cases s.challenges.lookup id with
  | some cfg => exact .registered rfl _ _ _ _
  | none => exact .absent rfl

theorem effect_addValidatorEvaluation (id : String) (v : Hotkey) (x : ValidatorEvaluation F)
    (sig : Bytes) :
    Effect C now s (.addValidatorEvaluation id v x sig)
      (.result (s.addValidatorEvaluation C now id v x sig).1)
      (s.addValidatorEvaluation C now id v x sig).2 := by
  unfold addValidatorEvaluation
  cases hs : checkSigned C v (evaluationSigningBytes id x.score) sig with
  | error e => exact .evaluationRefused e
  | ok u =>
    cases hr : s.pendingEvaluations.lookup id with
    | some r => exact .evaluated hs hr
    | none => exact .evaluationRefused _

theorem effect_finalizeEvaluation (t : Int) (id : String) :
    Effect C now s (.finalizeEvaluation t id) (.score (s.finalizeEvaluation C now t id).1)
      (s.finalizeEvaluation C now t id).2 := by
  unfold finalizeEvaluation
  cases hr : s.pendingEvaluations.lookup id with
  | none => exact .notCompleted
  | some r =>
    dsimp only
    split
    · exact .notCompleted
    · exact .completed _ hr

theorem effect_addWeightVoteVerified (v : Hotkey) (w : Weights) (e : UInt64) (sig : Bytes) :
    Effect C now s (.addWeightVoteVerified v w e sig)
      (.result (s.addWeightVoteVerified C now v w e sig).1)
      (s.addWeightVoteVerified C now v w e sig).2 := by
  unfold addWeightVoteVerified
  cases hsg : checkSigned C v (weightVoteSigningBytes e s.netuid w) sig with
  | error err =>
    refine .voteRefused err fun h => ?_
    rw [Signed, hsg] at h
    cases h
  | ok u =>
    dsimp only
    split
    · rename_i h
      exact .voted hsg rfl h.1 h.2
    · rename_i h
      cases hv : s.weightVotes with
      | none =>
        -- a new container takes the vote that made it
        rw [hv] at h
        exact absurd ⟨rfl, rfl⟩ h
      | some vs =>
        rw [hv] at h
        have hs : { s with weightVotes := some vs } = s := by
          rw [← hv]
        rw [Option.getD_some, hs]
        exact .voteStale hsg hv h

theorem effect_finalizeWeights :
    Effect C now s .finalizeWeights (.weights (s.finalizeWeights C now).1)
      (s.finalizeWeights C now).2 := by
  unfold finalizeWeights
  cases hv : s.weightVotes with
  | none => exact .notFinalized
  | some vs =>
    dsimp only
    split
    · exact .notFinalized
    · rename_i hfin
      split
      · exact .notFinalized
      · exact .finalized _ hv (Bool.not_eq_true _ ▸ hfin)

end

theorem stateNext_effect (C : Crypto) (s : ChainState F) (a : Int × StateOp F) :
    Effect C a.1 s a.2 (stateNext C s a).1 (stateNext C s a).2 := by
  obtain ⟨now, op⟩ := a
  cases op with
  | updateHash => exact .rehashed
  | incrementSequence | linkToBittensorBlock n h | updateValidator k stk | addChallenge config =>
    exact .registered rfl _ _ _ _
  | removeValidator k => exact effect_removeValidator s k
  | removeChallenge id => exact effect_removeChallenge s id
  | addEvaluation r => exact .evaluationAdded r
  | addValidatorEvaluation id v x sig => exact effect_addValidatorEvaluation s id v x sig
  | finalizeEvaluation t id => exact effect_finalizeEvaluation s t id
  | addWeightVoteVerified v w e sig => exact effect_addWeightVoteVerified s v w e sig
  | finalizeWeights => exact effect_finalizeWeights s
  | nextEpoch => exact .epochEnded

theorem effect_of_step {s s' : ChainState F} {c : StateCall F}
    (h : CallStep (stateNext C) s c s') : Effect C c.input.1 s c.input.2 c.out s' := by
  have he := stateNext_effect C s c.input
  rwa [← h.out_eq, ← h.after_eq] at he

end

/-! ## sample operations, on subnet 1 -/

def sampleVote (i : UInt8) (w : Weights) (epoch : UInt64) : StateOp ℚ :=
  .addWeightVoteVerified (.ofByte i) w epoch
    (sampleCrypto.sign ⟨.ofByte i⟩ 0 (weightVoteSigningBytes epoch 1 w))

def sampleEvaluation (i : UInt8) (id : String) (x : ValidatorEvaluation ℚ) : StateOp ℚ :=
  .addValidatorEvaluation id (.ofByte i) x
    (sampleCrypto.sign ⟨.ofByte i⟩ 0 (evaluationSigningBytes id x.score))

def sampleTrace (ops : List (StateOp ℚ)) : List (StateCall ℚ) × ChainState ℚ :=
  trace (stateNext sampleCrypto) (ChainState.new sampleCrypto 0 1)
    (ops.zipIdx.map fun p => ((p.2 : Int), p.1))

theorem stateRun_sampleTrace (ops : List (StateOp ℚ)) :
    StateRun sampleCrypto (ChainState.new sampleCrypto 0 1) (sampleTrace ops).1
      (sampleTrace ops).2 :=
  machineRun_trace _ _ _

end Platform.State
