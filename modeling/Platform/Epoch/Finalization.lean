import Platform.Epoch.CommitReveal

/-!
# What `finalize` returns (`commit_reveal.rs`)
-/

namespace Platform.Epoch
open Platform.Core Lib Chain List HashMap

section
variable {F T : Type} [F64Sub F] {C : Crypto} {epoch : UInt64} {challengeId : ChallengeId}
  {l l' l₁ : List (CommitRevealCall F T)} {s s' : CommitRevealState F T}
  {byCommit byReveal byCommit' byReveal' : Iteration Hotkey} {smoothing smoothing' : F}
  {minValidators : Nat} {now now' : T}

/-! ## the weights -/

omit [F64Sub F] in
def Finalized.weights : Finalized F T → Option (List (WeightAssignment F))
  | .ok fw _ => some fw.weights
  | .error _ => none
  | .panicked => none

def SameWeights (l : List (CommitRevealCall F T)) : Prop :=
  ∀ r ∈ revealed l, ∀ r' ∈ revealed l, normalizeWeights r.weights = normalizeWeights r'.weights

variable (h : Recorded epoch challengeId l s)

section
include h

end

end

section
variable {F T : Type}

def IsFinalize (c : CommitRevealCall F T) : Prop :=
  match c.input with
  | .finalize .. => True
  | _ => False

instance : DecidablePred (IsFinalize (F := F) (T := T)) := fun c => by
  unfold IsFinalize
  split <;> infer_instance

/-- every validator that committed has revealed, be it that the reveal did not match -/
def Accounted (l : List (CommitRevealCall F T)) : Prop :=
  ∀ v ∈ committers l, v ∈ revealers l ∨ v ∈ mismatches l

def Complete (l : List (CommitRevealCall F T)) : Prop :=
  ∀ l₁ c, l₁ ++ [c] <+: l → IsFinalize c → Accounted l₁

/-- the runs after which the lists of `finalize` are in order -/
structure Tidy (l : List (CommitRevealCall F T)) : Prop where
  once : (mismatches l).Nodup
  apart : ∀ v ∈ mismatches l, v ∉ revealers l
  complete : Complete l

/-- the two lists of validators share no validator, have none twice, and hold those given -/
structure IsPartition (fw : FinalizedWeights F T) (validators : List Hotkey) : Prop where
  disjoint : fw.participatingValidators.Disjoint fw.excludedValidators
  participating : fw.participatingValidators.Nodup
  excluded : fw.excludedValidators.Nodup
  union : ∀ v, v ∈ fw.participatingValidators ∨ v ∈ fw.excludedValidators ↔ v ∈ validators

variable {l l₁ : List (CommitRevealCall F T)} {c : CommitRevealCall F T}
  {s : CommitRevealState F T} {epoch : UInt64} {challengeId : ChallengeId} {v : Hotkey}
  {byCommit rv : Iteration Hotkey}

theorem complete_snoc : Complete (l ++ [c]) ↔ Complete l ∧ (IsFinalize c → Accounted l) := by
  constructor
  · intro h
    exact ⟨fun l₁ d hd => h l₁ d (hd.trans (prefix_append l [c])), h l c prefix_rfl⟩
  · rintro ⟨h, hls⟩ l₁ d hd hfn
    rcases prefix_concat_iff.mp hd with heq | hd
    · obtain ⟨rfl, hdc⟩ := append_inj' heq rfl
      obtain rfl := singleton_inj.mp hdc
      exact hls hfn
    · exact h l₁ d hd hfn

theorem complete_of_none (h : ∀ c ∈ l, ¬ IsFinalize c) : Complete l := by
  intro l₁ c hc hfn
  exact absurd hfn (h c (hc.subset (mem_append_right _ mem_cons_self)))

variable (h : Recorded epoch challengeId l s)

section
include h

theorem mem_unrevealed :
    v ∈ s.unrevealed byCommit ↔ v ∈ committers l ∧ v ∉ revealers l ∧ v ∉ mismatches l := by
  rw [CommitRevealState.unrevealed, mem_filter, decide_eq_true_iff, mem_keysBy,
    h.commitments.mem_iff, h.reveals.mem_iff, h.mismatched]
  rfl

theorem Recorded.committed_of_missing (hv : v ∈ s.missingReveals) : v ∈ committers l :=
  h.commitments.mem_iff.mp (s.missing_committed v hv)

theorem Recorded.committed_of_revealed (hv : v ∈ revealers l) : v ∈ committers l :=
  h.commitments.mem_iff.mp (s.reveals_committed v (h.reveals.mem_iff.mpr hv))

theorem Recorded.committed_of_mismatch (hv : v ∈ mismatches l) : v ∈ committers l :=
  h.commitments.mem_iff.mp (s.mismatched_committed v (h.mismatched ▸ hv))

theorem unrevealed_eq_nil : s.unrevealed byCommit = [] ↔ Accounted l := by
  rw [eq_nil_iff_forall_not_mem]
  refine forall_congr' fun v => ?_
  rw [mem_unrevealed h]
  tauto

end

variable [F64Sub F] {C : Crypto} {sm : F} {mv : Nat} {now : T}
  {fw : FinalizedWeights F T} {d : Bool}

theorem missing_after {s' : CommitRevealState F T} (hst : CallStep (commitRevealNext C) s c s') :
    ¬ IsFinalize c ∧ s'.missingReveals = s.missingReveals ∨
      IsFinalize c ∧ ∃ byCommit, s'.missingReveals = s.missingReveals ++ s.unrevealed byCommit := by
  unfold IsFinalize
  cases commitReveal_effect hst with
  | commit x inp | commitRefused x e inp | reveal r x inp | mismatch r x inp
  | revealRefused r e inp => exact .inl ⟨by rw [inp]; exact not_false, rfl⟩
  | finalize byCommit rv sm mv now inp => exact .inr ⟨by rw [inp]; exact trivial, byCommit, rfl⟩

theorem missing_eq_nil_iff
    (hrun : MachineRun (commitRevealNext C) (.new epoch challengeId) l s) :
    s.missingReveals = [] ↔ Complete l := by
  refine Run.logInvariant (P := fun l s => s.missingReveals = [] ↔ Complete l) ?_ ?_ hrun
  · refine ⟨fun _ l₁ c hc _ => ?_, fun _ => rfl⟩
    exact absurd (prefix_nil.mp hc) (by simp)
  · intro l s c s' hrun ih hst
    rw [complete_snoc, ← ih]
    rcases missing_after hst with ⟨hc, heq⟩ | ⟨hc, byCommit, heq⟩
    · rw [heq]
      exact ⟨fun h => ⟨h, fun hfn => absurd hfn hc⟩, And.left⟩
    · rw [heq, append_eq_nil_iff, unrevealed_eq_nil (recorded_run hrun)]
      exact and_congr_right fun _ => ⟨fun h _ => h, fun h => h hc⟩

theorem finalize_ok (h : (s.finalize byCommit rv sm mv now).1 = .ok fw d) :
    fw.participatingValidators = s.reveals.keysBy rv ∧
      fw.excludedValidators = s.missingReveals ++ s.unrevealed byCommit ++ s.mismatchedReveals := by
  unfold CommitRevealState.finalize at h
  dsimp only at h
  split at h
  · cases h
  · split at h
    · cases h
    · cases h
      exact ⟨rfl, rfl⟩

include h in
omit [F64Sub F] in
theorem mem_participating
    (hparticipating : fw.participatingValidators = s.reveals.keysBy rv) :
    v ∈ fw.participatingValidators ↔ v ∈ revealers l := by
  rw [hparticipating, mem_keysBy, h.reveals.mem_iff]
  rfl

section
variable (hrun : MachineRun (commitRevealNext C) (.new epoch challengeId) l s)
  (hp : fw.participatingValidators = s.reveals.keysBy rv)
  (he : fw.excludedValidators =
    s.missingReveals ++ s.unrevealed byCommit ++ s.mismatchedReveals)
include hrun hp he

theorem tidy_of_partition (hpr : IsPartition fw (committers l)) : Tidy l := by
  have h := recorded_run hrun
  have hnd := hpr.excluded
  rw [he, h.mismatched, nodup_append, nodup_append] at hnd
  obtain ⟨⟨-, -, hm⟩, hon, hms⟩ := hnd
  have ha : ∀ v ∈ s.missingReveals ++ s.unrevealed byCommit ++ mismatches l, v ∉ revealers l := by
    intro v hv hrv
    rw [← h.mismatched, ← he] at hv
    exact hpr.disjoint ((mem_participating h hp).mpr hrv) hv
  refine ⟨hon, fun v hv => ha v (mem_append_right _ hv), ?_⟩
  -- a validator that was missing before is found a second time: revealed, mismatched or missing
  rw [← missing_eq_nil_iff hrun, eq_nil_iff_forall_not_mem]
  intro v hv
  have hfr : v ∈ s.missingReveals ++ s.unrevealed byCommit := mem_append_left _ hv
  by_cases hrv : v ∈ revealers l
  · exact ha v (mem_append_left _ hfr) hrv
  · by_cases hmi : v ∈ mismatches l
    · exact hms v hfr v hmi rfl
    · exact hm v hv v ((mem_unrevealed h).mpr ⟨h.committed_of_missing hv, hrv, hmi⟩) rfl

theorem partition_of_tidy (htd : Tidy l) : IsPartition fw (committers l) := by
  have h := recorded_run hrun
  have hm : s.missingReveals = [] := (missing_eq_nil_iff hrun).mpr htd.complete
  rw [hm, nil_append, h.mismatched] at he
  refine ⟨?_, ?_, ?_, ?_⟩
  · intro v hv hex
    rw [he, mem_append, mem_unrevealed h] at hex
    rw [mem_participating h hp] at hv
    rcases hex with hex | hex
    · exact hex.2.1 hv
    · exact htd.apart v hex hv
  · rw [hp]
    exact nodup_keysBy
  · rw [he, nodup_append]
    refine ⟨nodup_keysBy.filter _, htd.once, ?_⟩
    rintro v hv _ hv' rfl
    exact ((mem_unrevealed h).mp hv).2.2 hv'
  · intro v
    rw [he, mem_participating h hp, mem_append, mem_unrevealed h]
    constructor
    · rintro (hv | hv | hv)
      · exact h.committed_of_revealed hv
      · exact hv.1
      · exact h.committed_of_mismatch hv
    · intro hv
      tauto

end

/-- **When participation is a partition.**  In the weights that a call of `finalize` returns, the
validators that take part and those that are excluded are disjoint, without repetition and together
those that committed, if and only if no validator had two reveals that did not match, none had such
a reveal and one that was accepted, and every earlier call of `finalize` came when all validators
that had committed were accounted for. -/
theorem participation_iff (hrun : MachineRun (commitRevealNext C) (.new epoch challengeId) l s)
    (hc : l₁ ++ [c] <+: l) (hout : c.out = .finalized (.ok fw d)) :
    IsPartition fw (committers l₁) ↔ Tidy l₁ := by
  obtain ⟨l₂, rfl⟩ := hc
  obtain ⟨m, hpr, -⟩ := hrun.split
  obtain ⟨s₁, hrun₁, hst⟩ := hpr.snoc_inv
  cases commitReveal_effect hst with
  | finalize byCommit rv sm mv now _ out =>
    rw [hout] at out
    obtain ⟨hparticipating, hexcluded⟩ := finalize_ok (CommitRevealOut.finalized.inj out).symm
    exact ⟨tidy_of_partition hrun₁ hparticipating hexcluded,
      partition_of_tidy hrun₁ hparticipating hexcluded⟩
  | commit _ _ out | commitRefused _ _ _ out | reveal _ _ _ out | mismatch _ _ _ out
  | revealRefused _ _ _ out =>
    rw [hout] at out; cases out

end

def threeOps : List (CommitRevealOp ℚ Nat) :=
  [.submitCommitment (sampleCommitment (sampleReveal 1 [⟨"a", 1⟩])),
    .submitCommitment (sampleCommitment (sampleReveal 2 [⟨"a", 1⟩])),
    .submitCommitment (sampleCommitment (sampleReveal 3 [⟨"a", 1⟩])),
    .submitReveal (sampleReveal 1 [⟨"a", 1⟩]), .submitReveal (sampleReveal 2 [⟨"b", 1⟩])]

/-- the weights are finalized with one validator -/
def finalizeOne : CommitRevealOp ℚ Nat :=
  .finalize (.leading (.ofByte 1)) (.leading (.ofByte 1)) 0 1 9

def threeFinal : FinalizedWeights ℚ Nat where
  challengeId := sampleChallenge
  epoch := 1
  weights := [⟨"a", 1⟩]
  participatingValidators := [.ofByte 1]
  excludedValidators := [.ofByte 3, .ofByte 2]
  smoothingApplied := 0
  finalizedAt := 9

theorem participation_three : IsPartition threeFinal (committers (sampleCalls threeOps).1) ∧
    (committers (sampleCalls threeOps).1).length = 3 := by
  have htd : Tidy (sampleCalls threeOps).1 :=
    ⟨by decide +kernel, by decide +kernel, complete_of_none (by decide +kernel)⟩
  refine ⟨?_, by decide +kernel⟩
  exact (participation_iff (d := false) (sampleCall_run threeOps finalizeOne) prefix_rfl
    (by decide +kernel)).mpr htd

/-- a validator reveals other weights first and its own after that -/
def secondTryOps : List (CommitRevealOp ℚ Nat) :=
  [.submitCommitment (sampleCommitment (sampleReveal 1 [⟨"a", 1⟩])),
    .submitReveal (sampleReveal 1 [⟨"b", 1⟩]), .submitReveal (sampleReveal 1 [⟨"a", 1⟩])]

/-- Then it takes part and is excluded. -/
theorem participation_overlaps :
    ¬ ∀ (C : Crypto) (epoch : UInt64) (challengeId : ChallengeId)
      (l l₁ : List (CommitRevealCall ℚ Nat)) (s : CommitRevealState ℚ Nat)
      (c : CommitRevealCall ℚ Nat) (fw : FinalizedWeights ℚ Nat) (d : Bool),
      MachineRun (commitRevealNext C) (.new epoch challengeId) l s → l₁ ++ [c] <+: l →
      c.out = .finalized (.ok fw d) → IsPartition fw (committers l₁) := by
  intro h
  have hpr := h sampleCrypto 1 sampleChallenge _ (sampleCalls secondTryOps).1 _
    (sampleCall secondTryOps finalizeOne) { threeFinal with excludedValidators := [.ofByte 1] }
    false (sampleCall_run secondTryOps finalizeOne) prefix_rfl (by decide +kernel)
  exact hpr.disjoint mem_cons_self mem_cons_self

end Platform.Epoch
