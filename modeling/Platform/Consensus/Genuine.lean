import Platform.Consensus.System

/-!
# Whose commits are counted

The signing structs of a proposal, a pre-prepare, a prepare and a commit serialise to the same
bytes (`voteBytes`), and nothing in them says which kind of message is signed.  A signature on one
of the other three kinds is therefore accepted as a commit of the same validator.
-/

namespace Platform.Consensus
open Lib Platform.Core

def otherSignature : Outcome Output → Option Bytes
  | .ok (.proposal p) => some p.signature
  | .ok (.prePrepare p) => some p.signature
  | .ok (.prepare p) => some p.signature
  | _ => none

def givenCommit : Op → Option CommitMessage
  | .handleCommit c => some c
  | _ => none

def NotRelabelled (s : Sys) (a : Hotkey × Event) : Prop :=
  ∀ c ∈ givenCommit a.2.op, c.validator ≠ a.1 → ∀ b ∈ s.log, b.1 = c.validator →
    otherSignature b.2.out ≠ some c.signature

instance (s : Sys) (a : Hotkey × Event) : Decidable (NotRelabelled s a) :=
  inferInstanceAs (Decidable (∀ c ∈ givenCommit a.2.op, c.validator ≠ a.1 → ∀ b ∈ s.log,
    b.1 = c.validator → otherSignature b.2.out ≠ some c.signature))

theorem commit_of_signatureOf {out : Outcome Output} {v : ViewNumber} {q : SequenceNumber}
    {hash : Bytes32} {σ : Bytes} (h : signatureOf out = some (voteBytes v q hash, σ))
    (hne : otherSignature out ≠ some σ) :
    ∃ c, out = .ok (.commit (some c)) ∧ c.view = v ∧ c.sequence = q ∧ c.proposalHash = hash ∧
      c.signature = σ := by
  have hvt := signedVote_of_signatureOf h
  have hσ : ∀ m σ' : Bytes, some (m, σ') = some (voteBytes v q hash, σ) → some σ' = some σ := by
    intro m σ' he
    rw [(Prod.mk.inj (Option.some.inj he)).2]
  match out, h, hne, hvt with
  | .ok (.proposal p), h, hne, _ => exact absurd (hσ _ _ h) hne
  | .ok (.prepare p), h, hne, _ => exact absurd (hσ _ _ h) hne
  | .ok (.prePrepare p), h, hne, _ => exact absurd (hσ _ _ h) hne
  | .ok (.commit (some c)), h, _, hvt =>
    obtain ⟨rfl, rfl, rfl⟩ := some_vote_inj hvt
    exact ⟨c, rfl, rfl, rfl, rfl, Option.some.inj (hσ _ _ h)⟩

def GenuineLog (C : Crypto) (correct : Finset Hotkey) (log : List (Hotkey × Event)) : Prop :=
  ∀ a ∈ log, ∀ c, a.2.op = .handleCommit c → c.validator ∈ correct → c.validator ≠ a.1 →
    C.verify c.signature c.signingBytes c.validator = true →
    ∃ ev, (c.validator, ev) ∈ log ∧ ev.out = .ok (.commit (some c))

section
variable {C : Crypto} {good : Finset Hotkey} {sees : Hotkey → Env → Prop}
  {l : List (Hotkey × Event)} {s s' : Sys} {a : Hotkey × Event}

theorem genuine_step (hrun : SysRun C good sees l s) (hs : SysStep C good sees s a s')
    (hrl : NotRelabelled s a) {c : CommitMessage} (hop : a.2.op = .handleCommit c)
    (hc : c.validator ∈ good) (hne : c.validator ≠ a.1)
    (hvr : C.verify c.signature c.signingBytes c.validator = true) :
    ∃ ev, (c.validator, ev) ∈ s.log ∧ ev.out = .ok (.commit (some c)) := by
  have hpr : (c.validator, c.signingBytes, c.signature) ∈ presented a.2.op := by
    rw [hop]
    exact List.mem_singleton.mpr rfl
  obtain ⟨b, hb, hbk, hsg⟩ := hs.unforgeable _ hpr hc hvr
  dsimp only at hbk hsg
  have hoh : otherSignature b.2.out ≠ some c.signature := by
    refine hrl c ?_ hne b hb hbk
    rw [hop]
    rfl
  obtain ⟨c', ho, hv, hq, hh, hσ⟩ := commit_of_signatureOf hsg hoh
  obtain ⟨hcl, hk⟩ := hrun.calls b hb
  have hvl : c'.validator = c.validator := (hcl.commitCreated ho).1.trans (hk.trans hbk)
  have heq : c' = c := by
    obtain ⟨v', q', h', k', σ'⟩ := c'
    dsimp only at hv hq hh hσ hvl
    rw [hv, hq, hh, hσ, hvl]
  rw [heq] at ho
  rw [← hbk]
  exact ⟨b.2, hb, ho⟩

theorem GoodRun.genuineLog (h : GoodRun C good sees NotRelabelled l s) :
    GenuineLog C good s.log := by
  refine Run.logInvariant (P := fun _ s => GenuineLog C good s.log) ?_ ?_ h
  · intro a ha
    cases ha
  · intro l s a s' hr hP hs b hb c hop hc hne hvr
    have hm : ∃ ev, (c.validator, ev) ∈ s.log ∧ ev.out = .ok (.commit (some c)) := by
      rcases hs.1.mem_log_iff.mp hb with hb | rfl
      · exact hP b hb c hop hc hne hvr
      · exact genuine_step (GoodRun.sysRun hr) hs.1 hs.2 hop hc hne hvr
    obtain ⟨ev, hev, ho⟩ := hm
    exact ⟨ev, hs.1.log_subset hev, ho⟩

end

/-- **Commit votes are genuine**, in every run in which no commit carries a signature that its
validator made on another kind of message: a commit of a correct validator in the round of another
correct engine was created by that validator's engine, when it reached the prepare quorum for the
same view, sequence and hash. -/
theorem commit_votes_genuine (C : Crypto) (correct : Finset Hotkey) (sees : Hotkey → Env → Prop)
    (l : List (Hotkey × Event)) (s : Sys) (h : GoodRun C correct sees NotRelabelled l s) :
    ∀ k ∈ correct, ∀ r, (s.engine k).currentRound = some r → ∀ v ∈ correct, v ≠ k →
      ∀ c, r.commits.lookup v = some c →
      ∃ ev, (v, ev) ∈ s.log ∧ ev.out = .ok (.commit (some c)) ∧
        ∃ r', ev.after.currentRound = some r' ∧ r'.phase = .prepared ∧
          ev.env.quorumSize ≤ r'.prepares.size ∧ r'.view = r.view ∧ r'.sequence = r.sequence ∧
          r'.proposalHash = r.proposalHash := by
  intro k _ r hr v hv hne c hc
  have hrun := h.sysRun
  have hfr := (hrun.engineRun k).logInv.commits r hr v c hc
  rcases hfr.source with ⟨hvk, -⟩ | ⟨x, hx, hop, hvr⟩
  · exact absurd hvk hne
  · have hby : voteBytes r.view r.sequence r.proposalHash = c.signingBytes := by
      rw [CommitMessage.signingBytes, hfr.view, hfr.sequence, hfr.proposalHash]
    have hok := ((ValidatorSet.verifySignature_ok_iff C _ _ _ _ _).mp hvr).2.2
    rw [hby, ← hfr.validator] at hok
    rw [← hfr.validator] at hv hne
    obtain ⟨ev, hev, ho⟩ := h.genuineLog (k, x) (mem_eventsOf.mp hx) c hop hv hne hok
    rw [hfr.validator] at hev
    obtain ⟨-, r₀, r', -, hr', -, hph, hq, h1, h2, h3, h4, h5, h6⟩ :=
      (hrun.calls _ hev).1.commitCreated ho
    refine ⟨ev, hev, ho, r', hr', hph, hq, ?_, ?_, ?_⟩
    · rw [h1, ← h4, hfr.view]
    · rw [h2, ← h5, hfr.sequence]
    · rw [h3, ← h6, hfr.proposalHash]

/-- Validator `1` counts the commit that validator `2` created. -/
theorem commit_votes_genuine_sample :
    let run := sysCalls sampleCrypto ((sampleDecides 1 2 [7]).take 6 ++
      [(.ofByte 1, sampleEnv 1 2, .handleCommit (sampleCommit 2 [7]))])
    (∃ r ∈ (run.2.engine (.ofByte 1)).currentRound,
      r.commits.lookup (.ofByte 2) = some (sampleCommit 2 [7])) ∧
    ∀ k ∈ sampleCorrect, ∀ r, (run.2.engine k).currentRound = some r → ∀ v ∈ sampleCorrect,
      v ≠ k → ∀ c, r.commits.lookup v = some c →
      ∃ ev, (v, ev) ∈ run.2.log ∧ ev.out = .ok (.commit (some c)) ∧
        ∃ r', ev.after.currentRound = some r' ∧ r'.phase = .prepared ∧
          ev.env.quorumSize ≤ r'.prepares.size ∧ r'.view = r.view ∧ r'.sequence = r.sequence ∧
          r'.proposalHash = r.proposalHash :=
  ⟨by decide +kernel,
    commit_votes_genuine sampleCrypto sampleCorrect (SeesAll sampleValidators fun _ => 1000) _ _
      (goodRun_calls _ (by decide +kernel))⟩

def relabelled (i : UInt8) (data : Bytes) : CommitMessage where
  view := (samplePrepare i data).view
  sequence := (samplePrepare i data).sequence
  proposalHash := (samplePrepare i data).proposalHash
  validator := (samplePrepare i data).validator
  signature := (samplePrepare i data).signature

/-- **A prepare is counted as a commit.**  Validator `2` has only prepared; its prepare, sent on as
a commit, is in the commits of validator `1`. -/
theorem commit_votes_relabelled :
    ¬ ∀ (C : Crypto) (correct : Finset Hotkey) (sees : Hotkey → Env → Prop)
      (l : List (Hotkey × Event)) (s : Sys), SysRun C correct sees l s →
      ∀ k ∈ correct, ∀ r, (s.engine k).currentRound = some r → ∀ v ∈ correct, v ≠ k →
      ∀ c, r.commits.lookup v = some c →
      ∃ ev, (v, ev) ∈ s.log ∧ ev.out = .ok (.commit (some c)) ∧
        ∃ r', ev.after.currentRound = some r' ∧ r'.phase = .prepared ∧
          ev.env.quorumSize ≤ r'.prepares.size ∧ r'.view = r.view ∧ r'.sequence = r.sequence ∧
          r'.proposalHash = r.proposalHash := by
  intro h
  have hrun : GoodRun sampleCrypto sampleCorrect (SeesAll sampleValidators fun _ => 1000)
      (fun _ _ => True) _ _ :=
    goodRun_calls ((sampleDecides 1 2 [7]).take 2 ++
      [(.ofByte 1, sampleEnv 1 2, .handleCommit (relabelled 2 [7]))]) (by decide +kernel)
  obtain ⟨ev, hev, ho, -⟩ := h sampleCrypto sampleCorrect _ _ _ hrun.sysRun (.ofByte 1)
    (by decide +kernel) _ (Option.some_get (by decide +kernel)).symm (.ofByte 2) (by decide +kernel)
    (by decide +kernel) (relabelled 2 [7]) (by decide +kernel)
  have hno : ∀ b ∈ (sysCalls sampleCrypto ((sampleDecides 1 2 [7]).take 2 ++
      [(.ofByte 1, sampleEnv 1 2, .handleCommit (relabelled 2 [7]))])).2.log,
      b.2.out ≠ .ok (.commit (some (relabelled 2 [7]))) := by decide +kernel
  exact hno _ hev ho

end Platform.Consensus
