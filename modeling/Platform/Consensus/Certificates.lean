import Platform.Consensus.Views

/-!
# The certificates of a view change

A new-view message carries view changes, a view change may carry a prepared proof.  Both are lists
whose length and content the sender chooses.  The handlers count entries where the protocol counts
validators, and a prepared proof is never compared with the leader of its view, with the vote of its
pre-prepare or with the sequence next to it.
-/

namespace Platform.Consensus
open Lib Platform.Core

/-! ## new views -/

section
variable (C : Crypto) (env : Env)

def signedViewChange (vc : ViewChangeMessage) : Bool :=
  decide (env.verifySignature C vc.validator vc.signingBytes vc.signature = .ok true)

theorem checkViewChanges_ok_iff (view : ViewNumber) (vcs : List ViewChangeMessage) :
    checkViewChanges C env view vcs = .ok () ↔
      ∀ vc ∈ vcs, vc.newView = view ∧ signedViewChange C env vc = true := by
  induction vcs with
  | nil => simp [checkViewChanges]
  | cons vc vcs ih =>
    rw [checkViewChanges]
    by_cases hv : vc.newView = view
    · rw [if_neg (not_not.mpr hv)]
      cases hc : checkSigned C env vc.validator vc.signingBytes vc.signature vc.validator.toHex with
      | error err =>
        have hno : signedViewChange C env vc = false := by
          apply decide_eq_false
          rw [← checkSigned_ok_iff C env _ _ _ vc.validator.toHex, hc]
          exact fun h => nomatch h
        simp [hno]
      | ok u =>
        have hy : signedViewChange C env vc = true :=
          decide_eq_true ((checkSigned_ok_iff C env _ _ _ _).mp hc)
        show checkViewChanges C env view vcs = .ok () ↔ _
        rw [ih]
        simp [hv, hy]
    · simp [hv]

/-- What `handle_new_view` tests of its message. -/
structure NewViewPasses (m : NewViewMessage) : Prop where
  leader : env.isLeader m.leader m.view = true
  signed : env.verifySignature C m.leader m.signingBytes m.signature = .ok true
  length : env.quorumSize ≤ m.viewChanges.length
  viewChanges : ∀ vc ∈ m.viewChanges, vc.newView = m.view ∧ signedViewChange C env vc = true

theorem checkNewView_ok_iff (m : NewViewMessage) :
    checkNewView C env m = .ok () ↔ NewViewPasses C env m := by
  constructor
  · intro h
    have hs := checkNewView_signed h
    unfold checkNewView at h
    split at h
    · cases h
    · rename_i hl
      rw [(checkSigned_ok_iff C env _ _ _ _).mpr hs] at h
      dsimp only at h
      split at h
      · cases h
      · rename_i hln
        exact ⟨by simpa using hl, hs, by omega, (checkViewChanges_ok_iff C env _ _).mp h⟩
  · intro h
    have hln := h.length
    unfold checkNewView
    rw [if_neg (by rw [h.leader]; decide), (checkSigned_ok_iff C env _ _ _ _).mpr h.signed]
    rw [if_neg (by omega)]
    exact (checkViewChanges_ok_iff C env _ _).mpr h.viewChanges

def NewViewBacked (m : NewViewMessage) : Prop :=
  ∃ S : Finset Hotkey, env.quorumSize ≤ S.card ∧ ∀ k ∈ S, env.validatorSet.isValidator k = true ∧
    ∃ vc ∈ m.viewChanges, vc.validator = k ∧ vc.newView = m.view ∧
      env.verifySignature C k vc.signingBytes vc.signature = .ok true

def viewChangers (m : NewViewMessage) : Finset Hotkey :=
  namesOf ViewChangeMessage.validator (fun _ => true) m.viewChanges

theorem NewViewPasses.backed_iff {m : NewViewMessage} (h : NewViewPasses C env m) :
    NewViewBacked C env m ↔ env.quorumSize ≤ (viewChangers m).card := by
  rw [viewChangers, ← exists_named_iff]
  constructor
  · rintro ⟨S, hq, hS⟩
    refine ⟨S, hq, fun k hk => ?_⟩
    obtain ⟨-, vc, hvc, hvl, -⟩ := hS k hk
    exact ⟨vc, hvc, hvl, rfl⟩
  · rintro ⟨S, hq, hS⟩
    refine ⟨S, hq, fun k hk => ?_⟩
    obtain ⟨vc, hvc, rfl, -⟩ := hS k hk
    obtain ⟨hv, hs⟩ := h.viewChanges vc hvc
    have hok := of_decide_eq_true hs
    have hrg := ((ValidatorSet.verifySignature_ok_iff C _ _ _ _ _).mp hok).1
    exact ⟨decide_eq_true hrg, vc, hvc, rfl, hv, hok⟩

theorem handleNewView_ok_iff (e : Engine) (m : NewViewMessage) :
    (handleNewView C env e m).1 = .ok () ↔ NewViewPasses C env m := by
  rw [← checkNewView_ok_iff]
  unfold handleNewView
  cases checkNewView C env m with
  | error err => simp
  | ok u => simp

/-- **New-view certificates.**  An accepted new-view message is backed by a quorum of validators if
and only if it fails one of the tests or names a quorum of distinct validators. -/
theorem new_view_certificate_iff (e : Engine) (m : NewViewMessage) :
    ((handleNewView C env e m).1 = .ok () → NewViewBacked C env m) ↔
      (NewViewPasses C env m → env.quorumSize ≤ (viewChangers m).card) := by
  rw [handleNewView_ok_iff]
  constructor
  · intro h hp
    exact (hp.backed_iff C env).mp (h hp)
  · intro h hp
    exact (hp.backed_iff C env).mpr (h hp)

end

/-- **One validator counted three times.**  The leader of view `1` announces it with three copies of
its own view change, and validator `0` follows. -/
theorem new_view_certificate_repeated :
    ¬ ∀ (C : Crypto) (env : Env) (e : Engine) (m : NewViewMessage),
      (handleNewView C env e m).1 = .ok () → NewViewBacked C env m := by
  intro h
  have hok : (handleNewView sampleCrypto (sampleEnv 0 0) (Engine.new (sampleKey 0))
      (sampleNewView 1 1 [1, 1, 1])).1 = .ok () := by decide +kernel
  have hp := (handleNewView_ok_iff _ _ _ _).mp hok
  have hcr := (hp.backed_iff _ _).mp (h _ _ _ _ hok)
  revert hcr
  decide +kernel

/-! ## prepared proofs -/

section
variable (C : Crypto) (env : Env)

def validPrepare (p : PrepareMessage) : Bool :=
  decide (env.verifySignature C p.validator p.signingBytes p.signature = .ok true)

/-- The loop of `handle_view_change` ends with the number of valid signatures, unless a prepare
names an unknown validator or has a signature of the wrong length. -/
theorem countValidPrepares_ok_iff (ps : List PrepareMessage) (n k : Nat) :
    countValidPrepares C env ps n = .ok k ↔
      (∀ p ∈ ps, p.validator ∈ env.validatorSet.validators ∧ p.signature.length = 64) ∧
        k = n + ps.countP (validPrepare C env) := by
  induction ps generalizing n with
  | nil =>
    show Except.ok n = .ok k ↔ _
    rw [Except.ok.injEq]
    constructor
    · rintro rfl
      exact ⟨fun p hp => absurd hp List.not_mem_nil, rfl⟩
    · rintro ⟨-, rfl⟩
      rfl
  | cons p ps ih =>
    rw [countValidPrepares, List.forall_mem_cons, List.countP_cons]
    cases hv : env.verifySignature C p.validator p.signingBytes p.signature with
    | error err =>
      -- the only two ways in which `verify_signature` fails
      have hno : ¬ (p.validator ∈ env.validatorSet.validators ∧ p.signature.length = 64) := by
        rintro ⟨hrg, hl⟩
        have hok := (ValidatorSet.verifySignature_ok_iff C env.validatorSet p.validator
          p.signingBytes p.signature _).mpr ⟨hrg, hl, rfl⟩
        rw [Env.verifySignature, hok] at hv
        cases hv
      simp [hno]
    | ok b =>
      have hrg := (ValidatorSet.verifySignature_ok_iff C _ _ _ _ _).mp hv
      have hb : validPrepare C env p = b := by
        rw [validPrepare, hv]
        cases b <;> simp
      rw [ih, hb]
      simp only [hrg.1, hrg.2.1, and_self, true_and]
      refine and_congr_right fun _ => ?_
      cases b with
      | false => simp
      | true =>
        simp only [if_true]
        omega

/-- What `handle_view_change` tests of a message with a prepared proof. -/
structure ProofPasses (vc : ViewChangeMessage) (proof : PreparedProof) : Prop where
  signed : env.verifySignature C vc.validator vc.signingBytes vc.signature = .ok true
  prePrepare : env.verifySignature C proof.prePrepare.leader proof.prePrepare.signingBytes
    proof.prePrepare.signature = .ok true
  prepares : ∀ p ∈ proof.prepares,
    p.validator ∈ env.validatorSet.validators ∧ p.signature.length = 64
  count : env.quorumSize ≤ proof.prepares.countP (validPrepare C env)

theorem checkPreparedProof_ok_iff (pf : PreparedProof) :
    checkPreparedProof C env pf = .ok () ↔
      env.verifySignature C pf.prePrepare.leader pf.prePrepare.signingBytes
          pf.prePrepare.signature = .ok true ∧
        ∃ k, countValidPrepares C env pf.prepares 0 = .ok k ∧ env.quorumSize ≤ k := by
  unfold checkPreparedProof
  rw [← checkSigned_ok_iff C env _ _ _
    ("Invalid PrePrepare signature from " ++ pf.prePrepare.leader.toHex)]
  cases checkSigned C env pf.prePrepare.leader pf.prePrepare.signingBytes
      pf.prePrepare.signature
      ("Invalid PrePrepare signature from " ++ pf.prePrepare.leader.toHex) with
  | error err => simp
  | ok u =>
    cases countValidPrepares C env pf.prepares 0 with
    | error err => simp
    | ok k =>
      by_cases hk : k < env.quorumSize
      · simp [hk]
      · simp [hk, Nat.le_of_not_lt hk]

theorem checkViewChange_ok_iff {vc : ViewChangeMessage} {proof : PreparedProof}
    (hp : vc.preparedProof = some proof) :
    checkViewChange C env vc = .ok () ↔ ProofPasses C env vc proof := by
  have hch : checkViewChange C env vc = .ok () ↔
      env.verifySignature C vc.validator vc.signingBytes vc.signature = .ok true ∧
        checkPreparedProof C env proof = .ok () := by
    unfold checkViewChange
    rw [← checkSigned_ok_iff C env _ _ _ vc.validator.toHex, hp]
    cases checkSigned C env vc.validator vc.signingBytes vc.signature vc.validator.toHex with
    | error err => simp
    | ok u => simp
  rw [hch, checkPreparedProof_ok_iff]
  constructor
  · rintro ⟨hs, hpp, k, hk, hq⟩
    obtain ⟨ha, rfl⟩ := (countValidPrepares_ok_iff C env _ _ _).mp hk
    exact ⟨hs, hpp, ha, by omega⟩
  · intro h
    have hcn := (countValidPrepares_ok_iff C env _ 0 _).mpr ⟨h.prepares, rfl⟩
    have hq := h.count
    exact ⟨h.signed, h.prePrepare, _, hcn, by omega⟩

/-- `handle_view_change` returns `Ok` exactly when the checks pass. -/
theorem handleViewChange_not_err_iff (e : Engine) (vc : ViewChangeMessage) :
    (∀ err, (handleViewChange C env e vc).1 ≠ .err err) ↔ checkViewChange C env vc = .ok () := by
  unfold handleViewChange
  cases checkViewChange C env vc with
  | error err => simp
  | ok u =>
    dsimp only
    split
    · simp
    · split <;> simp

def supports (pp : PrePrepare) (p : PrepareMessage) : Bool :=
  decide (p.view = pp.view) && decide (p.sequence = pp.sequence) &&
    decide (p.proposalHash = pp.proposalHash) && validPrepare C env p

theorem supports_iff (pp : PrePrepare) (p : PrepareMessage) :
    supports C env pp p = true ↔
      p.view = pp.view ∧ p.sequence = pp.sequence ∧ p.proposalHash = pp.proposalHash ∧
        env.verifySignature C p.validator p.signingBytes p.signature = .ok true := by
  simp [supports, validPrepare, and_assoc]

structure ProofReal (vc : ViewChangeMessage) (proof : PreparedProof) : Prop where
  leader : env.isLeader proof.prePrepare.leader proof.prePrepare.view = true
  signed : env.verifySignature C proof.prePrepare.leader proof.prePrepare.signingBytes
    proof.prePrepare.signature = .ok true
  quorum : ∃ S : Finset Hotkey, env.quorumSize ≤ S.card ∧ ∀ k ∈ S,
    env.validatorSet.isValidator k = true ∧ ∃ p ∈ proof.prepares, p.validator = k ∧
      p.view = proof.prePrepare.view ∧ p.sequence = proof.prePrepare.sequence ∧
      p.proposalHash = proof.prePrepare.proposalHash ∧
      env.verifySignature C k p.signingBytes p.signature = .ok true
  sequence : vc.lastPreparedSequence = some proof.prePrepare.sequence

def supporters (proof : PreparedProof) : Finset Hotkey :=
  namesOf PrepareMessage.validator (supports C env proof.prePrepare) proof.prepares

theorem le_card_supporters_iff (pf : PreparedProof) (q : Nat) :
    q ≤ (supporters C env pf).card ↔ ∃ S : Finset Hotkey, q ≤ S.card ∧ ∀ k ∈ S,
      env.validatorSet.isValidator k = true ∧ ∃ p ∈ pf.prepares, p.validator = k ∧
        p.view = pf.prePrepare.view ∧ p.sequence = pf.prePrepare.sequence ∧
        p.proposalHash = pf.prePrepare.proposalHash ∧
        env.verifySignature C k p.signingBytes p.signature = .ok true := by
  rw [supporters, ← exists_named_iff]
  constructor
  · rintro ⟨S, hq, hS⟩
    refine ⟨S, hq, fun k hk => ?_⟩
    obtain ⟨p, hp, rfl, hsp⟩ := hS k hk
    have hsp' := (supports_iff C env _ p).mp hsp
    have hrg := ((ValidatorSet.verifySignature_ok_iff C _ _ _ _ _).mp hsp'.2.2.2).1
    exact ⟨decide_eq_true hrg, p, hp, rfl, hsp'⟩
  · rintro ⟨S, hq, hS⟩
    refine ⟨S, hq, fun k hk => ?_⟩
    obtain ⟨-, p, hp, rfl, hsp⟩ := hS k hk
    exact ⟨p, hp, rfl, (supports_iff C env _ p).mpr hsp⟩

/-- **Prepared proofs.**  An accepted view change carries a real proof if and only if it fails one
of the tests, or the pre-prepare names the leader of its view and the sequence of the view change,
and the prepares for it come from a quorum of distinct validators. -/
theorem prepared_proof_iff (e : Engine) (vc : ViewChangeMessage) (proof : PreparedProof)
    (hp : vc.preparedProof = some proof) :
    ((∀ err, (handleViewChange C env e vc).1 ≠ .err err) → ProofReal C env vc proof) ↔
      (ProofPasses C env vc proof →
        env.leaderForView proof.prePrepare.view = some proof.prePrepare.leader ∧
        vc.lastPreparedSequence = some proof.prePrepare.sequence ∧
        env.quorumSize ≤ (supporters C env proof).card) := by
  have hld : env.isLeader proof.prePrepare.leader proof.prePrepare.view = true ↔
      env.leaderForView proof.prePrepare.view = some proof.prePrepare.leader := decide_eq_true_iff
  rw [handleViewChange_not_err_iff, checkViewChange_ok_iff C env hp]
  constructor
  · intro h hps
    have hrl := h hps
    exact ⟨hld.mp hrl.leader, hrl.sequence, (le_card_supporters_iff C env proof _).mpr hrl.quorum⟩
  · intro h hps
    obtain ⟨hl, hsq, hq⟩ := h hps
    exact ⟨hld.mpr hl, hps.prePrepare, (le_card_supporters_iff C env proof _).mp hq, hsq⟩

end

def sampleProof (data : Bytes) (signers : List UInt8) : PreparedProof where
  prePrepare := newPrePrepare sampleCrypto (sampleEnv 0 1) (Engine.new (sampleKey 0)) 0 1
    (sampleHash data)
  prepares := signers.map fun i => samplePrepare i data

def sampleProvenViewChange (data : Bytes) (signers : List UInt8) : ViewChangeMessage where
  newView := 1
  lastPreparedSequence := some 1
  preparedProof := some (sampleProof data signers)
  validator := .ofByte 3
  signature := (sampleKey 3).signBytes sampleCrypto 5 (viewChangeBytes 1 (some 1))

/-- A proof with the prepares of three validators is accepted, and is real. -/
theorem prepared_proof_three :
    (∀ err, (handleViewChange sampleCrypto (sampleEnv 1 0) (Engine.new (sampleKey 1))
        (sampleProvenViewChange [7] [1, 2, 3])).1 ≠ .err err) ∧
      ProofReal sampleCrypto (sampleEnv 1 0) (sampleProvenViewChange [7] [1, 2, 3])
        (sampleProof [7] [1, 2, 3]) := by
  have hok : checkViewChange sampleCrypto (sampleEnv 1 0)
      (sampleProvenViewChange [7] [1, 2, 3]) = .ok () := by decide +kernel
  have ha := (handleViewChange_not_err_iff sampleCrypto (sampleEnv 1 0)
    (Engine.new (sampleKey 1)) _).mpr hok
  refine ⟨ha, (prepared_proof_iff sampleCrypto (sampleEnv 1 0) (Engine.new (sampleKey 1))
    (sampleProvenViewChange [7] [1, 2, 3]) (sampleProof [7] [1, 2, 3]) rfl).mpr (fun _ => ?_) ha⟩
  decide +kernel

/-- **One prepare counted three times.**  The proof repeats the prepare of validator `1`, and the
view change is accepted. -/
theorem prepared_proof_repeated :
    ¬ ∀ (C : Crypto) (env : Env) (e : Engine) (vc : ViewChangeMessage) (proof : PreparedProof),
      vc.preparedProof = some proof →
      (∀ err, (handleViewChange C env e vc).1 ≠ .err err) → ProofReal C env vc proof := by
  intro h
  have hok : checkViewChange sampleCrypto (sampleEnv 1 0)
      (sampleProvenViewChange [7] [1, 1, 1]) = .ok () := by decide +kernel
  have ha := (handleViewChange_not_err_iff sampleCrypto (sampleEnv 1 0)
    (Engine.new (sampleKey 1)) _).mpr hok
  have hq := (le_card_supporters_iff _ _ _ _).mpr (h _ _ _ _ _ rfl ha).quorum
  revert hq
  decide +kernel

end Platform.Consensus
