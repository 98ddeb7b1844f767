import Platform.Consensus.Invariant
import Platform.Consensus.Certificates

/-!
# A prepared round in a view change

`initiate_view_change` makes a proof of the prepared round only from a round that holds a
pre-prepare.  The one function that stores it is `create_pre_prepare`, which the leader calls; a
replica enters its round by `handle_proposal` and never has one.

* `prepared_survives_iff`   the message carries the round, with a proof that is accepted, exactly
                            when the round has a pre-prepare and the validators of its prepares are
                            a quorum of the set;
* `replica_forgets`         a replica with a prepared round sends neither sequence nor proof.
-/

namespace Platform.Consensus
open Lib Platform.Core

/-- what a signer makes verifies under its own key -/
def Signs (C : Crypto) : Prop :=
  ∀ kp rng m, (C.sign kp rng m).length = 64 ∧ C.verify (C.sign kp rng m) m kp.hotkey = true

/-! ## what a round stores is signed -/

structure RoundSigned (C : Crypto) (kp : Keypair) (r : ConsensusRound) : Prop where
  prePrepare : ∀ pp, r.prePrepare = some pp → pp.leader = kp.hotkey ∧ pp.signature.length = 64 ∧
    C.verify pp.signature pp.signingBytes pp.leader = true
  prepares : ∀ k p, r.prepares.lookup k = some p → p.validator = k ∧ p.signature.length = 64 ∧
    C.verify p.signature p.signingBytes p.validator = true

section
variable {C : Crypto} {kp : Keypair} {e e' : Engine} {env : Env} {op : Op} {out : Outcome Output}
  {r : ConsensusRound}

theorem RoundSigned.addPrepare {p : PrepareMessage} (h : RoundSigned C kp r)
    (hc : checkPrepare C env r p = .ok ()) : RoundSigned C kp (addPrepare r p) where
  prePrepare := h.prePrepare
  prepares := by
    intro k q hq
    rcases (HashMap.lookup_insert_iff _ _ _ _ _).mp hq with ⟨rfl, rfl⟩ | ⟨-, ho⟩
    · obtain ⟨-, -, -, hvr⟩ := (checkPrepare_ok_iff C env r q).mp hc
      exact ⟨rfl, ((ValidatorSet.verifySignature_ok_iff C _ _ _ _ _).mp hvr).2⟩
    · exact h.prepares k q ho

theorem roundSigned_of_trans (hC : Signs C) (hkp : e.keypair = kp)
    (h : ∀ r, e.currentRound = some r → RoundSigned C kp r) (ht : Trans C env e op out e')
    (hr : e'.currentRound = some r) : RoundSigned C kp r := by
  subst hkp
  cases ht with
  | proposed =>
    cases hr
    exact ⟨fun pp hpp => (nomatch hpp), fun k p hp => (nomatch hp)⟩
  | accepted p =>
    cases hr
    refine ⟨fun pp hpp => (nomatch hpp), fun k q hq => ?_⟩
    rcases (HashMap.lookup_insert_iff _ _ _ _ _).mp hq with ⟨rfl, rfl⟩ | ⟨-, hn⟩
    · exact ⟨rfl, hC _ _ _⟩
    · cases hn
  | prePrepared =>
    obtain ⟨r, ho, rfl⟩ := Option.map_eq_some_iff.mp hr
    refine ⟨fun pp hpp => ?_, (h r ho).prepares⟩
    cases hpp
    exact ⟨rfl, hC _ _ _⟩
  | prepareCounted r p ho hc =>
    cases hr
    exact (h r ho).addPrepare hc
  | prepareQuorum r p c ho hc =>
    cases hr
    have ha := (h r ho).addPrepare hc
    exact ⟨ha.prePrepare, ha.prepares⟩
  | commitCounted r c ho | noProposal r c err ho | overflow r c p ho =>
    cases hr
    exact ⟨(h r ho).prePrepare, (h r ho).prepares⟩
  | decided | newViewFormed | newViewEntered => cases hr
  | rejected | viewChangeStarted | viewChangeIgnored | viewChangeCounted => exact h r hr

theorem EngineRun.roundSigned {evs : List Event} (hC : Signs C) (h : EngineRun C kp evs e)
    (hr : e.currentRound = some r) : RoundSigned C kp r := by
  have hiv : StateInv C kp e ∧ ∀ r, e.currentRound = some r → RoundSigned C kp r := by
    refine Run.invariant (P := fun e => StateInv C kp e ∧
      ∀ r, e.currentRound = some r → RoundSigned C kp r) ⟨stateInv_new C kp, fun r hr => ?_⟩ ?_ h
    · cases hr
    · rintro e ev e' ⟨hst, ha⟩ hs
      exact ⟨hs.stateInv hst, fun r hr => roundSigned_of_trans hC hst.keypair ha hs.trans hr⟩
  exact hiv.2 r hr

end

/-! ## the message of a prepared round -/

/-- another engine with the same validators and the same quorum -/
def SameSet (env env' : Env) : Prop :=
  env'.validatorSet.validators = env.validatorSet.validators ∧ env'.quorumSize = env.quorumSize

section
variable {C : Crypto} {kp : Keypair} {e : Engine} {env : Env} {r : ConsensusRound}

theorem proofPasses_iff {evs : List Event} (hC : Signs C) (h : EngineRun C kp evs e)
    (hr : e.currentRound = some r) {pp : PrePrepare} (hpp : r.prePrepare = some pp)
    (newView : ViewNumber) (env' : Env) :
    ProofPasses C env' (newViewChange C env e newView) ⟨pp, r.prepares.values⟩ ↔
      kp.hotkey ∈ env'.validatorSet.validators ∧
        (∀ k ∈ r.prepares, k ∈ env'.validatorSet.validators) ∧
        env'.quorumSize ≤ r.prepares.size := by
  have hrn := h.roundSigned hC hr
  obtain ⟨hld, hpp'⟩ := hrn.prePrepare pp hpp
  have hkp := h.stateInv.keypair
  -- every stored prepare is under the key of its validator, and verifies
  have hvl : ∀ p ∈ r.prepares.values, r.prepares.lookup p.validator = some p ∧
      p.signature.length = 64 ∧ C.verify p.signature p.signingBytes p.validator = true := by
    intro p hp
    obtain ⟨k, hk⟩ := (HashMap.mem_values _ _).mp hp
    obtain ⟨rfl, hs⟩ := hrn.prepares k p hk
    exact ⟨hk, hs⟩
  have hse : (∀ p ∈ r.prepares.values, p.validator ∈ env'.validatorSet.validators) ↔
      ∀ k ∈ r.prepares, k ∈ env'.validatorSet.validators := by
    constructor
    · intro ha k hk
      obtain ⟨p, hp⟩ := Option.isSome_iff_exists.mp (AList.lookup_isSome.mpr hk)
      rw [← (hrn.prepares k p hp).1]
      exact ha p ((HashMap.mem_values _ _).mpr ⟨k, hp⟩)
    · exact fun ha p hp => ha _ (HashMap.mem_of_lookup (hvl p hp).1)
  have hcn : (∀ p ∈ r.prepares.values, p.validator ∈ env'.validatorSet.validators) →
      r.prepares.values.countP (validPrepare C env') = r.prepares.size := by
    intro ha
    rw [List.countP_eq_length.mpr]
    · exact List.length_map _
    · intro p hp
      exact decide_eq_true ((ValidatorSet.verifySignature_ok_iff C _ _ _ _ _).mpr
        ⟨ha p hp, (hvl p hp).2⟩)
  constructor
  · intro hps
    have ho := ((ValidatorSet.verifySignature_ok_iff C _ _ _ _ _).mp hps.prePrepare).1
    have ha := fun p hp => (hps.prepares p hp).1
    exact ⟨hld ▸ ho, hse.mp ha, hcn ha ▸ hps.count⟩
  · rintro ⟨ho, ha, hq⟩
    refine ⟨?_, ?_, fun p hp => ⟨hse.mpr ha p hp, (hvl p hp).2.1⟩, ?_⟩
    · refine (ValidatorSet.verifySignature_ok_iff C _ _ _ _ _).mpr ⟨?_, hC _ _ _⟩
      show e.keypair.hotkey ∈ _
      rwa [hkp]
    · exact (ValidatorSet.verifySignature_ok_iff C _ _ _ _ _).mpr ⟨hld ▸ ho, hpp'⟩
    · rw [hcn (hse.mpr ha)]
      exact hq

/-- **A prepared round survives a view change** if and only if it holds a pre-prepare and its
prepares come from a quorum of the validators that there are now. -/
theorem prepared_survives_iff {evs : List Event} (hC : Signs C) (h : EngineRun C kp evs e)
    (hr : e.currentRound = some r) (hphase : r.phase = .prepared) (newView : ViewNumber)
    (vc : ViewChangeMessage) (hvc : (initiateViewChange C env e newView).1 = .ok vc) :
    (vc.lastPreparedSequence = some r.sequence ∧ vc.preparedProof.isSome = true ∧
      ∀ env' e', SameSet env env' → ∀ err, (handleViewChange C env' e' vc).1 ≠ .err err) ↔
    r.prePrepare.isSome = true ∧ kp.hotkey ∈ env.validatorSet.validators ∧
      (∀ k ∈ r.prepares, k ∈ env.validatorSet.validators) ∧
      env.quorumSize ≤ r.prepares.size := by
  have hvc' : vc = newViewChange C env e newView := by
    unfold initiateViewChange at hvc
    split at hvc
    · cases hvc
    · exact (Outcome.ok.inj hvc).symm
  subst hvc'
  cases hpp : r.prePrepare with
  | none =>
    have hls : lastPrepared e = (none, none) := by simp [lastPrepared, hr, hpp]
    simp [newViewChange, hls]
  | some pp =>
    have hls : lastPrepared e = (some r.sequence, some ⟨pp, r.prepares.values⟩) := by
      simp [lastPrepared, hr, hpp, hphase, ConsensusPhase.rank]
    have hpr : (newViewChange C env e newView).preparedProof =
        some ⟨pp, r.prepares.values⟩ := congrArg Prod.snd hls
    simp only [handleViewChange_not_err_iff, checkViewChange_ok_iff C _ hpr,
      proofPasses_iff hC h hr hpp, hpr, Option.isSome_some, true_and]
    constructor
    · intro ha
      exact ha.2 env e ⟨rfl, rfl⟩
    · intro hcn
      refine ⟨congrArg Prod.fst hls, fun env' _ hs => ?_⟩
      rw [hs.1, hs.2]
      exact hcn

end

theorem signs_sampleCrypto : Signs sampleCrypto := by
  intro kp rng m
  refine ⟨length_padTo 64 _, decide_eq_true ?_⟩
  have hk : (kp.hotkey.key.bytes.take 8).length = 8 := by simp [kp.hotkey.key.len]
  -- the ninth byte of the signature is the randomness
  have hrn : (sampleCrypto.sign kp rng m).getD 8 0 = UInt8.ofNat rng := by
    simp [sampleCrypto, padTo, hk]
  rw [hrn]
  rfl

/-- the leader of view `0` with its own proposal and three prepares -/
def leaderCalls : List (Env × Op) :=
  [(sampleEnv 0 0, .createProposal .weightUpdate [7]),
    (sampleEnv 0 0, .createPrePrepare 0 1 (sampleHash [7])),
    (sampleEnv 0 1, .handlePrepare (samplePrepare 1 [7])),
    (sampleEnv 0 1, .handlePrepare (samplePrepare 2 [7])),
    (sampleEnv 0 1, .handlePrepare (samplePrepare 3 [7]))]

def leaderEngine : Engine := (calls sampleCrypto (sampleKey 0) leaderCalls).2

theorem leaderEngine_round : leaderEngine.currentRound.isSome = true := by decide +kernel

/-- The leader's message carries its round, with a proof that the others accept. -/
theorem prepared_survives_leader :
    (newViewChange sampleCrypto (sampleEnv 0 2) leaderEngine 1).lastPreparedSequence = some 1 ∧
    (newViewChange sampleCrypto (sampleEnv 0 2) leaderEngine 1).preparedProof.isSome = true ∧
    ∀ err, (handleViewChange sampleCrypto (sampleEnv 1 2) (Engine.new (sampleKey 1))
      (newViewChange sampleCrypto (sampleEnv 0 2) leaderEngine 1)).1 ≠ .err err := by
  have hrun := engineRun_calls sampleCrypto (sampleKey 0) leaderCalls (by decide +kernel)
  have hvc : (initiateViewChange sampleCrypto (sampleEnv 0 2) leaderEngine 1).1 =
      .ok (newViewChange sampleCrypto (sampleEnv 0 2) leaderEngine 1) := by decide +kernel
  obtain ⟨-, hpr, ha⟩ := (prepared_survives_iff signs_sampleCrypto hrun
    (Option.some_get leaderEngine_round).symm (by decide +kernel) 1 _ hvc).mpr (by decide +kernel)
  exact ⟨by decide +kernel, hpr, ha _ _ ⟨by decide +kernel, by decide +kernel⟩⟩

/-- **A replica forgets its prepared round.**  It has the prepares of a quorum and has sent its
commit; its view change carries nothing. -/
theorem replica_forgets :
    ((calls sampleCrypto (sampleKey 1) ((sampleRound [7]).take 3)).2.currentRound.map fun r =>
      (r.phase, r.sequence, r.prepares.size)) = some (.prepared, 1, 3) ∧
    (sampleEnv 1 2).quorumSize = 3 ∧
    ∃ vc, (initiateViewChange sampleCrypto (sampleEnv 1 2)
        (calls sampleCrypto (sampleKey 1) ((sampleRound [7]).take 3)).2 1).1 = .ok vc ∧
      vc.lastPreparedSequence = none ∧ vc.preparedProof = none :=
  ⟨by decide +kernel, by decide +kernel, _, rfl, by decide +kernel, by decide +kernel⟩

end Platform.Consensus
