import Platform.Bittensor.Submitter

/-!
# Reveals that fail

A reveal takes the pending commits out of the state and saves that before it calls the chain.  When
the call fails, nothing puts them back: they are neither in memory nor in the file any more, and of
those that did get through before the error nothing is recorded.
-/

namespace Platform.Bittensor
open Platform.Core Lib WeightSubmitter

variable {F : Type}

inductive RevealCall (F : Type) where
  | mechanisms (it : Iteration UInt8)
  | submit (weights : List (Epoch.WeightAssignment F)) (salt : List UInt16)
  | force

namespace RevealCall

def run (L : Library F) (chain : Chain) (s : WeightSubmitter) :
    RevealCall F → Except String (Option String) × WeightSubmitter
  | mechanisms it => s.revealPendingMechanismCommits chain it
  | submit weights salt =>
    let (result, s) := s.submitWithCommitReveal L chain salt weights
    (result.map some, s)
  | force => s.forceReveal chain

def through (chain : Chain) (s : WeightSubmitter) (n : Nat) :
    List (UInt8 × PendingMechanismCommit) → List (UInt8 × PendingMechanismCommit)
  | [] => []
  | p :: l =>
    match s.revealOne chain n p.2 with
    | .ok _ => p :: through chain s (n + 1) l
    | .error _ => []

def revealed (chain : Chain) (s : WeightSubmitter) :
    RevealCall F → List (UInt8 × PendingMechanismCommit)
  | mechanisms it => through chain s 0 (s.state.pendingMechanismCommits.pairsBy it)
  | submit _ _ => []
  | force => []

def revealedV2 (chain : Chain) (s : WeightSubmitter) : RevealCall F → Option PendingCommitV2
  | mechanisms _ => none
  | submit _ _ | force =>
    s.state.pendingCommit.filter fun c => (s.revealPendingV2 chain c).isOk

end RevealCall

structure Retryable (revealed : List (UInt8 × PendingMechanismCommit))
    (revealedV2 : Option PendingCommitV2) (s s' : WeightSubmitter) : Prop where
  mechanisms : ∀ id c, s.state.pendingMechanismCommits.lookup id = some c → (id, c) ∉ revealed →
    s'.state.pendingMechanismCommits.lookup id = some c ∧
      ((PersistedCommitState.load s.file).pendingMechanismCommits.lookup id = some c →
        (PersistedCommitState.load s'.file).pendingMechanismCommits.lookup id = some c)
  v2 : ∀ c, s.state.pendingCommit = some c → revealedV2 ≠ some c →
    s'.state.pendingCommit = some c ∧
      ((PersistedCommitState.load s.file).pendingCommit = some c →
        (PersistedCommitState.load s'.file).pendingCommit = some c)
  recorded : ∀ p ∈ revealed, s'.state.pendingMechanismCommits.lookup p.1 = none ∧
    s'.state.lastRevealedEpoch.lookup p.2.mechanismId = some p.2.epoch
  taken : ∀ c, revealedV2 = some c → s'.state.pendingCommit = none

namespace RevealCall
variable {L : Library F} {chain : Chain} {s : WeightSubmitter} {n : Nat} {tx e : String}
  {acc : List (UInt8 × UInt64)} {l : List (UInt8 × PendingMechanismCommit)}

theorem send_store (st : PersistedCommitState) (call : ChainCall) :
    (s.store st).send chain n call = s.send chain n call := by
  simp only [send, client_store]

theorem stopped_of_error (st : PersistedCommitState)
    (h : (s.store st).revealLoop chain n tx acc l = .error e) :
    ∃ l₁ p l₂, l = l₁ ++ p :: l₂ ∧ through chain s n l = l₁ := by
  induction l generalizing n tx acc with
  | nil => cases h
  | cons p l ih =>
    have hon : (s.store st).revealOne chain n p.2 = s.revealOne chain n p.2 := by
      unfold revealOne
      rw [send_store, client_store]
    unfold revealLoop at h
    unfold through
    rw [hon] at h
    cases hon' : s.revealOne chain n p.2 with
    | error e' => exact ⟨[], p, l, rfl, rfl⟩
    | ok tx' =>
      rw [hon'] at h
      obtain ⟨l₁, q, l₂, hl, hth⟩ := ih h
      exact ⟨p :: l₁, q, l₂, by rw [hl]; rfl, by rw [← hth]⟩

/-- what is asked of a call that has failed -/
def Retries (L : Library F) (chain : Chain) (s : WeightSubmitter) (call : RevealCall F) : Prop :=
  Retryable (call.revealed chain s) (call.revealedV2 chain s) s (call.run L chain s).2

theorem not_retries_mechanisms (it : Iteration UInt8)
    (her : (run L chain s (mechanisms it)).1 = .error e) :
    ¬ Retries L chain s (mechanisms it) := by
  intro hrt
  have hm := hrt.mechanisms
  simp only [run, revealPendingMechanismCommits] at her hm
  split at her
  · cases her
  · next hsz =>
    rw [if_neg hsz] at hm
    cases hlp : revealLoop chain
        (s.store { s.state with pendingMechanismCommits := ∅ }) 0 "" []
        (s.state.pendingMechanismCommits.pairsBy it) with
    | ok r =>
      rw [hlp] at her
      cases her
    | error e' =>
      rw [hlp] at hm
      obtain ⟨l₁, p, l₂, hl, hth⟩ := stopped_of_error _ hlp
      have hnd := HashMap.nodup_pairsBy (m := s.state.pendingMechanismCommits) it
      have hmm : (p.1, p.2) ∈ s.state.pendingMechanismCommits.pairsBy it := by
        rw [hl]
        exact List.mem_append_right _ List.mem_cons_self
      have ho : (p.1, p.2) ∉ (mechanisms it : RevealCall F).revealed chain s := by
        show p ∉ through chain s 0 _
        rw [hth]
        intro hin
        rw [hl, List.map_append, List.nodup_append] at hnd
        exact hnd.2.2 p.1 (List.mem_map_of_mem hin) p.1 List.mem_cons_self rfl
      have hk := (hm p.1 p.2 (HashMap.mem_pairsBy.mp hmm) ho).1
      simp at hk

theorem not_retries_v2 {call : RevealCall F} {c : PendingCommitV2}
    (hp : s.state.pendingCommit = some c)
    (hrv : call.revealedV2 chain s =
      s.state.pendingCommit.filter fun c => (s.revealPendingV2 chain c).isOk)
    (her : s.revealPendingV2 chain c = .error e)
    (hs' : (call.run L chain s).2.state.pendingCommit = none) : ¬ Retries L chain s call := by
  intro hrt
  have hn : call.revealedV2 chain s = none := by
    rw [hrv, hp, Option.filter_some, her]
    rfl
  have hk := (hrt.v2 c hp (by simp [hn])).1
  rw [hs'] at hk
  cases hk

theorem revealPendingV2_store (st : PersistedCommitState) (c : PendingCommitV2) :
    (s.store st).revealPendingV2 chain c = s.revealPendingV2 chain c := by
  unfold revealPendingV2
  rw [send_store, client_store]

theorem commitNew_of_error {salt : List UInt16} {ws : List (Epoch.WeightAssignment F)}
    (h : (s.commitNew L chain salt ws).1 = .error e) :
    (s.commitNew L chain salt ws).2 = s := by
  revert h
  unfold commitNew
  dsimp only
  split
  · intro _
    rfl
  · split
    · intro _
      rfl
    · split
      · intro _
        rfl
      · intro h
        cases h

theorem retryable_refl : Retryable [] none s s where
  mechanisms _ _ hpending _ := ⟨hpending, id⟩
  v2 _ hpending _ := ⟨hpending, id⟩
  recorded _ hp := absurd hp List.not_mem_nil
  taken _ h := by cases h

theorem retries_submit_iff {ws : List (Epoch.WeightAssignment F)} {salt : List UInt16}
    (her : (run L chain s (submit ws salt)).1 = .error e) :
    Retries L chain s (submit ws salt) ↔ s.state.pendingCommit = none := by
  have hrun : run L chain s (submit ws salt) =
      ((s.submitWithCommitReveal L chain salt ws).1.map some,
        (s.submitWithCommitReveal L chain salt ws).2) := rfl
  unfold submitWithCommitReveal at hrun
  cases hp : s.state.pendingCommit with
  | some c =>
    rw [hp] at hrun
    dsimp only at hrun
    rw [revealPendingV2_store] at hrun
    rw [hrun] at her
    refine iff_of_false ?_ (Option.some_ne_none c)
    cases hrv : s.revealPendingV2 chain c with
    | ok tx =>
      rw [hrv] at her
      cases her
    | error e' => exact not_retries_v2 hp rfl hrv (by rw [hrun, hrv]; simp)
  | none =>
    rw [hp] at hrun
    rw [hrun] at her
    have hs : (s.commitNew L chain salt ws).2 = s := by
      cases hcm : (s.commitNew L chain salt ws).1 with
      | ok tx =>
        rw [hcm] at her
        cases her
      | error e' => exact commitNew_of_error hcm
    have hn : (submit ws salt : RevealCall F).revealedV2 chain s = none := by
      show s.state.pendingCommit.filter _ = none
      rw [hp]
      rfl
    rw [Retries, hrun, hs, hn]
    exact iff_of_true retryable_refl rfl

theorem not_retries_force (her : (run L chain s force).1 = .error e) :
    ¬ Retries L chain s force := by
  have hrun : run L chain s force = s.forceReveal chain := rfl
  unfold forceReveal at hrun
  cases hp : s.state.pendingCommit with
  | none =>
    rw [hrun, hp] at her
    cases her
  | some c =>
    rw [hp] at hrun
    dsimp only at hrun
    rw [revealPendingV2_store] at hrun
    rw [hrun] at her
    cases hrv : s.revealPendingV2 chain c with
    | ok tx =>
      rw [hrv] at her
      cases her
    | error e' => exact not_retries_v2 hp rfl hrv (by rw [hrun, hrv]; simp)

/-- **A failed reveal can be retried** if and only if it was a submission with no commit pending, so
that it failed to commit and there was nothing to reveal. -/
theorem retry_iff (L : Library F) (chain : Chain) (s : WeightSubmitter) (call : RevealCall F)
    (e : String) (herror : (call.run L chain s).1 = .error e) :
    Retryable (call.revealed chain s) (call.revealedV2 chain s) s (call.run L chain s).2 ↔
      (∃ weights salt, call = .submit weights salt) ∧ s.state.pendingCommit = none := by
  cases call with
  | mechanisms it =>
    refine iff_of_false (not_retries_mechanisms it herror) ?_
    intro h
    obtain ⟨⟨weights, salt, hcl⟩, -⟩ := h
    cases hcl
  | submit weights salt =>
    exact (retries_submit_iff herror).trans (and_iff_right ⟨weights, salt, rfl⟩).symm
  | force =>
    refine iff_of_false (not_retries_force herror) ?_
    intro h
    obtain ⟨⟨weights, salt, hcl⟩, -⟩ := h
    cases hcl

def samplePending : WeightSubmitter :=
  (new sampleClient none).store { PersistedCommitState.default with
    committedEpoch := some 5
    pendingMechanismCommits := HashMap.collect
      [(1, ⟨1, "0xcd", [3], [65535], "", 1, 5⟩), (2, ⟨2, "0xcd", [3], [65535], "", 1, 5⟩)] }

/-- A submission without a UID fails and leaves the mechanism commits alone. -/
theorem retry_after_failed_commit :
    ((submit [] [] : RevealCall Unit).run sampleLibrary (fun _ _ => .error "timeout")
        samplePending).1 = .error "No valid UIDs found for weights" ∧
      Retryable [] none samplePending
        ((submit [] [] : RevealCall Unit).run sampleLibrary (fun _ _ => .error "timeout")
          samplePending).2 :=
  ⟨rfl, (retry_iff sampleLibrary (fun _ _ => .error "timeout") samplePending (submit [] []) _
    rfl).mpr ⟨⟨_, _, rfl⟩, rfl⟩⟩

def answersOnce : Chain := fun n _ => if n = 0 then .ok "0x01" else .error "timeout"

/-- The first reveal gets through, the second one does not: after that neither commit is pending, in
memory or in the file, and no reveal is recorded. -/
theorem failed_reveal_loses_commits :
    ((mechanisms .asListed : RevealCall Unit).run sampleLibrary answersOnce samplePending).1 =
        .error "timeout" ∧
      ((mechanisms .asListed : RevealCall Unit).revealed answersOnce samplePending).length = 1 ∧
      samplePending.state.pendingMechanismCommits.size = 2 ∧
      ¬ Retryable ((mechanisms .asListed : RevealCall Unit).revealed answersOnce samplePending)
        ((mechanisms .asListed : RevealCall Unit).revealedV2 answersOnce samplePending)
        samplePending
        ((mechanisms .asListed : RevealCall Unit).run sampleLibrary answersOnce samplePending).2 :=
  ⟨rfl, rfl, rfl, not_retries_mechanisms .asListed rfl⟩

end RevealCall

end Platform.Bittensor
