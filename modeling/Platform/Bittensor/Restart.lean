import Platform.Bittensor.Submitter

/-!
# Commits over a restart

`set_epoch` drops the pending commits when the epoch changes, unless `committed_epoch` is the new
epoch.  Only a batch of mechanism commits writes that field.  After a restart the submitter starts
with epoch 0, so the first `set_epoch` counts as a change.
-/

namespace Platform.Bittensor
open Platform.Core Lib

variable {F : Type}

/-- the calls of a submitter, with the answers of the chain; `setClient` is a change through
`client_mut` -/
inductive SubmitterOp (F : Type) where
  | setEpoch (epoch : UInt64)
  | submitWeights (chain : Chain) (salt : List UInt16) (weights : List (Epoch.WeightAssignment F))
  | submitMechanismWeightsBatch (chain : Chain) (salt : Nat → List UInt16)
      (version : Except String UInt16) (timelocked : Except String String)
      (mechanismWeights : List (UInt8 × List UInt16 × List UInt16))
  | revealPendingMechanismCommits (chain : Chain) (it : Iteration UInt8)
  | forceReveal (chain : Chain)
  | setClient (client : SubtensorClient)
  | restart (client : SubtensorClient)

variable (chain : Chain) (L : Library F) (s : WeightSubmitter)

def submitterNext :
    SubmitterOp F → Except String (Option String) × WeightSubmitter
  | .setEpoch epoch => (.ok none, s.setEpoch epoch)
  | .submitWeights chain salt weights =>
    let (result, s) := s.submitWeights L chain salt weights
    (result.map some, s)
  | .submitMechanismWeightsBatch chain salt version timelocked mechanismWeights =>
    let (result, s) :=
      s.submitMechanismWeightsBatch L chain salt version timelocked mechanismWeights
    (result.map some, s)
  | .revealPendingMechanismCommits chain it => s.revealPendingMechanismCommits chain it
  | .forceReveal chain => s.forceReveal chain
  | .setClient client => (.ok none, { s with client := client })
  | .restart client => (.ok none, .new client s.file)

abbrev SubmitterCall (F : Type) :=
  Call WeightSubmitter (SubmitterOp F) (Except String (Option String))

/-! ## the two epochs -/

def WeightSubmitter.usesHashes (version : Except String UInt16) (s : WeightSubmitter) : Bool :=
  s.client.config.useCommitReveal && decide ((s.getCrvVersion L version).1.toOption.getD 0 < 4)

def commitsBatch (op : SubmitterOp F) : Bool :=
  match op with
  | .submitMechanismWeightsBatch _ _ version _ _ =>
    s.usesHashes L version && (submitterNext L s op).1.isOk
  | _ => false

def batchEpoch (l : List (SubmitterCall F)) : Option UInt64 :=
  l.foldl
    (fun last k => if commitsBatch L k.before k.input then some k.before.currentEpoch else last)
    none

def SubmitterOp.epochAfter (epoch : UInt64) : SubmitterOp F → UInt64
  | .setEpoch epoch' => epoch'
  | .restart _ => 0
  | _ => epoch

/-- the epoch that was set last, since the last start -/
def epochNow (l : List (SubmitterCall F)) : UInt64 := l.foldl (fun e k => k.input.epochAfter e) 0

/-! ## one call -/

structure Keeps (op : SubmitterOp F) (s' : WeightSubmitter) : Prop where
  sync : PersistedCommitState.load s'.file = s'.state
  committed : s'.state.committedEpoch =
    if commitsBatch L s op then some s.currentEpoch else s.state.committedEpoch
  current : s'.currentEpoch = op.epochAfter s.currentEpoch

variable {L : Library F} {s s' : WeightSubmitter} {op : SubmitterOp F}

/-- The call has stored a state with the same `committed_epoch`, or nothing. -/
def StoredOnly (s s' : WeightSubmitter) : Prop :=
  s' = s ∨ ∃ st, s' = s.store st ∧ st.committedEpoch = s.state.committedEpoch

variable (hs : PersistedCommitState.load s.file = s.state)

include hs in
theorem keeps_of_storedOnly (hsr : StoredOnly s s') (hop : commitsBatch L s op = false)
    (he : op.epochAfter s.currentEpoch = s.currentEpoch) : Keeps L s op s' := by
  rcases hsr with rfl | ⟨st, rfl, hst⟩
  · refine ⟨hs, ?_, he.symm⟩
    rw [hop]
    rfl
  · refine ⟨by simp, ?_, by simp [he]⟩
    rw [WeightSubmitter.state_store, hop, hst]
    rfl

theorem storedOnly_submitWeights (salt : List UInt16) (ws : List (Epoch.WeightAssignment F)) :
    StoredOnly s (s.submitWeights L chain salt ws).2 := by
  unfold WeightSubmitter.submitWeights WeightSubmitter.submitWithCommitReveal
    WeightSubmitter.commitNew
  split
  · split
    · exact .inr ⟨_, rfl, rfl⟩
    · dsimp only
      split
      · exact .inl rfl
      · split
        · exact .inl rfl
        · split
          · exact .inl rfl
          · exact .inr ⟨_, rfl, rfl⟩
  · exact .inl rfl

theorem storedOnly_reveal (it : Iteration UInt8) :
    StoredOnly s (s.revealPendingMechanismCommits chain it).2 := by
  unfold WeightSubmitter.revealPendingMechanismCommits
  split
  · exact .inl rfl
  · dsimp only
    split
    · exact .inr ⟨_, rfl, rfl⟩
    · refine .inr ⟨_, WeightSubmitter.store_store _ _ _, ?_⟩
      simp

theorem storedOnly_forceReveal : StoredOnly s (s.forceReveal chain).2 := by
  unfold WeightSubmitter.forceReveal
  split
  · exact .inr ⟨_, rfl, rfl⟩
  · exact .inl rfl

theorem committedEpoch_newEpoch (st : PersistedCommitState) (epoch : UInt64) :
    (st.newEpoch epoch).committedEpoch = st.committedEpoch := by
  unfold PersistedCommitState.newEpoch
  split
  · rfl
  · rfl

include hs in
theorem keeps_setEpoch (epoch : UInt64) : Keeps L s (.setEpoch epoch) (s.setEpoch epoch) := by
  unfold WeightSubmitter.setEpoch
  split
  · refine ⟨by simp, ?_, by simp [SubmitterOp.epochAfter]⟩
    rw [WeightSubmitter.state_store, committedEpoch_newEpoch]
    rfl
  · next hsm =>
    exact ⟨hs, rfl, (not_not.mp hsm).symm⟩

theorem getCrvVersion_snd (ver : Except String UInt16) :
    ∃ v, (s.getCrvVersion L ver).2 = { s with cachedCrvVersion := v } := by
  unfold WeightSubmitter.getCrvVersion
  split
  · exact ⟨_, rfl⟩
  · split
    · exact ⟨_, rfl⟩
    · exact ⟨_, rfl⟩

include hs in
theorem keeps_batch (chain : Chain) (salt : Nat → List UInt16) (ver : Except String UInt16)
    (tl : Except String String)
    (mws : List (UInt8 × List UInt16 × List UInt16)) :
    Keeps L s (.submitMechanismWeightsBatch chain salt ver tl mws)
      (s.submitMechanismWeightsBatch L chain salt ver tl mws).2 := by
  have hc : commitsBatch L s (.submitMechanismWeightsBatch chain salt ver tl
      mws) = (s.usesHashes L ver && (s.submitMechanismWeightsBatch L chain salt
        ver tl mws).1.isOk) := by
    have hm : ∀ r : Except String String, (r.map some).isOk = r.isOk := by rintro (_ | _) <;> rfl
    exact congrArg (s.usesHashes L ver && ·) (hm _)
  obtain ⟨v, hv⟩ := getCrvVersion_snd ver
  unfold WeightSubmitter.submitMechanismWeightsBatch at hc ⊢
  dsimp only at hc ⊢
  rw [hv] at hc ⊢
  by_cases hem : mws.isEmpty = true
  · rw [if_pos hem] at hc ⊢
    refine ⟨hs, ?_, rfl⟩
    rw [hc]
    simp [Except.isOk, Except.toBool]
  · rw [if_neg hem] at hc ⊢
    unfold WeightSubmitter.usesHashes at hc
    by_cases hrv : s.client.config.useCommitReveal = true
    · rw [if_pos hrv] at hc ⊢
      by_cases hvr : 4 ≤ (s.getCrvVersion L ver).1.toOption.getD 0
      · rw [if_pos hvr] at hc ⊢
        refine ⟨hs, ?_, rfl⟩
        rw [hc]
        simp [UInt16.not_lt.mpr hvr]
      · rw [if_neg hvr] at hc ⊢
        rw [hrv, decide_eq_true (UInt16.not_le.mp hvr)] at hc
        revert hc
        unfold WeightSubmitter.submitBatchCommitReveal
        split
        · intro hc
          exact ⟨hs, by rw [hc]; rfl, rfl⟩
        · dsimp only
          split
          · intro hc
            exact ⟨hs, by rw [hc]; rfl, rfl⟩
          · intro hc
            refine ⟨by simp, ?_, by simp [SubmitterOp.epochAfter]⟩
            rw [hc, WeightSubmitter.state_store]
            rfl
    · rw [if_neg hrv] at hc ⊢
      refine ⟨hs, ?_, rfl⟩
      rw [hc]
      simp [hrv]

include hs in
theorem keeps_next (op : SubmitterOp F) : Keeps L s op (submitterNext L s op).2 := by
  cases op with
  | setEpoch epoch => exact keeps_setEpoch hs epoch
  | submitWeights chain salt ws =>
    exact keeps_of_storedOnly hs (storedOnly_submitWeights chain salt ws) rfl rfl
  | submitMechanismWeightsBatch chain salt ver tl mws =>
    exact keeps_batch hs chain salt ver tl mws
  | revealPendingMechanismCommits chain it =>
    exact keeps_of_storedOnly hs (storedOnly_reveal chain it) rfl rfl
  | forceReveal chain => exact keeps_of_storedOnly hs (storedOnly_forceReveal chain) rfl rfl
  | setClient client => exact ⟨hs, rfl, rfl⟩
  | restart client => exact ⟨rfl, congrArg PersistedCommitState.committedEpoch hs, rfl⟩

/-! ## runs -/

structure Kept (L : Library F) (l : List (SubmitterCall F)) (s : WeightSubmitter) : Prop where
  sync : PersistedCommitState.load s.file = s.state
  committed : s.state.committedEpoch = batchEpoch L l
  current : s.currentEpoch = epochNow l

theorem kept_run {client : SubtensorClient} {l : List (SubmitterCall F)}
    (hrun : MachineRun (submitterNext L) (.new client none) l s) : Kept L l s := by
  refine Run.logInvariant ⟨rfl, rfl, rfl⟩ ?_ hrun
  intro l s k s' _ hk hstep
  obtain ⟨hs, hcm, hc⟩ := keeps_next hk.sync k.input
  rw [← hstep.after_eq] at hs hcm hc
  obtain rfl := hstep.1
  refine ⟨hs, ?_, ?_⟩
  · rw [hcm, hk.committed, batchEpoch, batchEpoch, List.foldl_append]
    rfl
  · rw [hc, hk.current, epochNow, epochNow, List.foldl_append]
    rfl

/-! ## pending commits -/

inductive PendingCommit where
  | v2 (commit : PendingCommitV2)
  | mechanism (id : UInt8) (commit : PendingMechanismCommit)

def PendingCommit.epoch : PendingCommit → UInt64
  | v2 commit => commit.epoch
  | mechanism _ commit => commit.epoch

def PersistedCommitState.Holds (st : PersistedCommitState) : PendingCommit → Prop
  | .v2 commit => st.pendingCommit = some commit
  | .mechanism id commit => st.pendingMechanismCommits.lookup id = some commit

variable {c : PendingCommit} {st : PersistedCommitState} {epoch : UInt64}

theorem holds_newEpoch : (st.newEpoch epoch).Holds c ↔
    st.Holds c ∧ st.committedEpoch = some epoch := by
  unfold PersistedCommitState.newEpoch
  split
  · next hne =>
    refine iff_of_false ?_ fun h => hne h.2
    cases c with
    | v2 commit | mechanism id commit => simp [PersistedCommitState.Holds]
  · next heq => exact (and_iff_left (not_not.mp heq)).symm

/-- When `set_epoch` keeps a commit. -/
theorem holds_setEpoch : (s.setEpoch epoch).state.Holds c ↔
    s.state.Holds c ∧ (s.currentEpoch = epoch ∨ s.state.committedEpoch = some epoch) := by
  unfold WeightSubmitter.setEpoch
  split
  · next hne => rw [WeightSubmitter.state_store, holds_newEpoch, or_iff_right (Ne.symm hne)]
  · next heq => exact (and_iff_left (.inl (not_not.mp heq).symm)).symm

/-- **A commit survives a restart within its epoch** exactly if that epoch is 0 or the last batch of
mechanism commits was made in it; and it survives `set_epoch` in the same process exactly if the
epoch does not change by it or the last batch was made in it. -/
theorem survives_iff {client : SubtensorClient} {l : List (SubmitterCall F)}
    (hrun : MachineRun (submitterNext L) (.new client none) l s)
    (hheld : (PersistedCommitState.load s.file).Holds c) (client' : SubtensorClient) :
    (((WeightSubmitter.new client' s.file).setEpoch c.epoch).state.Holds c ↔
      c.epoch = 0 ∨ batchEpoch L l = some c.epoch) ∧
    ((s.setEpoch c.epoch).state.Holds c ↔
      epochNow l = c.epoch ∨ batchEpoch L l = some c.epoch) := by
  have hk := kept_run hrun
  have hfl : (PersistedCommitState.load s.file).committedEpoch = batchEpoch L l := by
    rw [hk.sync, hk.committed]
  refine ⟨?_, ?_⟩
  · rw [holds_setEpoch]
    show (PersistedCommitState.load s.file).Holds c ∧ ((0 : UInt64) = c.epoch ∨
      (PersistedCommitState.load s.file).committedEpoch = some c.epoch) ↔ _
    rw [hfl, and_iff_right hheld, eq_comm]
  · rw [holds_setEpoch, ← hk.sync, hfl, and_iff_right hheld, hk.current]

/-- calls of a submitter that starts without a file, on a chain that accepts everything -/
def sampleRun (ops : List (SubmitterOp Unit)) : List (SubmitterCall Unit) × WeightSubmitter :=
  trace (submitterNext sampleLibrary) (.new sampleClient none) ops

def sampleBatch : List (SubmitterOp Unit) :=
  [.setEpoch 5, .submitMechanismWeightsBatch (fun _ _ => .ok "0x01") (fun _ => [7]) (.ok 3)
    (.error "") [(1, [3], [65535])]]

theorem survives_batch :
    ((WeightSubmitter.new sampleClient (sampleRun sampleBatch).2.file).setEpoch 5).state.Holds
        (.mechanism 1 ⟨1, "0xcd", [3], [65535], "0700", 1, 5⟩) ∧
      ((sampleRun sampleBatch).2.setEpoch 5).state.Holds
        (.mechanism 1 ⟨1, "0xcd", [3], [65535], "0700", 1, 5⟩) := by
  have hrun := machineRun_trace (submitterNext sampleLibrary) (.new sampleClient none) sampleBatch
  have hh : (PersistedCommitState.load (sampleRun sampleBatch).2.file).Holds
      (.mechanism 1 ⟨1, "0xcd", [3], [65535], "0700", 1, 5⟩) := by
    rw [sampleRun, (kept_run hrun).sync]
    rfl
  have h := survives_iff hrun hh sampleClient
  exact ⟨h.1.mpr (.inr rfl), h.2.mpr (.inr rfl)⟩

/-- a commit in epoch 5 without mechanisms -/
def sampleSubmit : List (SubmitterOp Unit) :=
  [.setEpoch 5, .submitWeights (fun _ _ => .ok "0x01") [7] [⟨"miner", ()⟩]]

/-- The commit is in the file, and is dropped when the restarted submitter is told the epoch. -/
theorem commit_lost_on_restart :
    (PersistedCommitState.load (sampleRun sampleSubmit).2.file).Holds
        (.v2 ⟨"0xab", [3], [65535], "0700", 1, 5⟩) ∧
      ((WeightSubmitter.new sampleClient (sampleRun sampleSubmit).2.file).setEpoch 5).state =
        .default ∧
      ¬ ((WeightSubmitter.new sampleClient (sampleRun sampleSubmit).2.file).setEpoch 5).state.Holds
        (.v2 ⟨"0xab", [3], [65535], "0700", 1, 5⟩) := by
  refine ⟨rfl, rfl, ?_⟩
  intro h
  cases h

end Platform.Bittensor
