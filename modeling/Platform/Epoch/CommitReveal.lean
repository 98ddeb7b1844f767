import Platform.Chain.Types
import Platform.Epoch.Commitment
import Platform.Lib.Machine

/-!
# Commit and reveal for one epoch of one challenge (`commit_reveal.rs`)

A validator commits to its weights with a hash and reveals the weights later; the revealed weights
are finalized then.  Nothing keeps the three kinds of calls in this order.

Rust fixes no order in which a map is visited, so `finalize` is given one for each of its maps.
-/

namespace Platform.Epoch
open Platform.Core Lib Chain HashMap

section
variable (F T : Type)

structure WeightCommitment where
  validator : Hotkey
  challengeId : ChallengeId
  epoch : UInt64
  commitmentHash : String
  timestamp : T
deriving DecidableEq

structure WeightReveal where
  validator : Hotkey
  challengeId : ChallengeId
  epoch : UInt64
  weights : List (WeightAssignment F)
  secret : Bytes
  timestamp : T
deriving DecidableEq

structure FinalizedWeights where
  challengeId : ChallengeId
  epoch : UInt64
  weights : List (WeightAssignment F)
  participatingValidators : List Hotkey
  excludedValidators : List Hotkey
  smoothingApplied : F
  finalizedAt : T
deriving DecidableEq

end

inductive CommitRevealError where
  | wrongEpoch (expected got : UInt64)
  | wrongChallenge
  | alreadyCommitted
  | alreadyRevealed
  | noCommitment
  | commitmentMismatch
  | insufficientValidators (required got : Nat)
  | aggregationFailed (msg : String)
deriving DecidableEq

structure CommitRevealState (F T : Type) where
  epoch : UInt64
  challengeId : ChallengeId
  commitments : HashMap Hotkey (WeightCommitment T)
  reveals : HashMap Hotkey (WeightReveal F T)
  missingReveals : List Hotkey
  mismatchedReveals : List Hotkey
  reveals_committed : ∀ v ∈ reveals, v ∈ commitments
  missing_committed : ∀ v ∈ missingReveals, v ∈ commitments
  mismatched_committed : ∀ v ∈ mismatchedReveals, v ∈ commitments

/-- What a call of `finalize` comes to.  The flag says whether the error "Weight submissions
diverged" was logged; the index `submissions[0]` fails if there is no submission. -/
inductive Finalized (F T : Type) where
  | ok (weights : FinalizedWeights F T) (divergenceLogged : Bool)
  | error (e : CommitRevealError)
  | panicked
deriving DecidableEq

def checkSubmissionDivergence {F : Type} [F64Sub F] :
    List (List (WeightAssignment F)) → Bool
  | [] => false
  | first :: rest =>
    let firstWeights := collect (first.map fun w => (w.hotkey, w.weight))
    rest.any fun submission =>
      submission.length != first.length ||
        submission.any fun w =>
          match firstWeights.lookup w.hotkey with
          | none => true
          | some firstWeight =>
            F64.lt F64Sub.thousandth (F64Sub.abs (F64Sub.sub w.weight firstWeight))

namespace CommitRevealState
variable {F T : Type}

def new (epoch : UInt64) (challengeId : ChallengeId) : CommitRevealState F T where
  epoch := epoch
  challengeId := challengeId
  commitments := ∅
  reveals := ∅
  missingReveals := []
  mismatchedReveals := []
  reveals_committed _ h := absurd h (AList.notMem_empty _)
  missing_committed _ h := absurd h List.not_mem_nil
  mismatched_committed _ h := absurd h List.not_mem_nil

variable (s : CommitRevealState F T)

def putCommitment (x : WeightCommitment T) : CommitRevealState F T where
  epoch := s.epoch
  challengeId := s.challengeId
  commitments := s.commitments.insert x.validator x
  reveals := s.reveals
  missingReveals := s.missingReveals
  mismatchedReveals := s.mismatchedReveals
  reveals_committed v h := (AList.mem_insert _).mpr (.inr (s.reveals_committed v h))
  missing_committed v h := (AList.mem_insert _).mpr (.inr (s.missing_committed v h))
  mismatched_committed v h := (AList.mem_insert _).mpr (.inr (s.mismatched_committed v h))

def putReveal (r : WeightReveal F T) (hr : r.validator ∈ s.commitments) : CommitRevealState F T :=
  { s with
    reveals := s.reveals.insert r.validator r
    reveals_committed := fun v h => by
      rcases (AList.mem_insert _).mp h with rfl | h
      · exact hr
      · exact s.reveals_committed v h }

def pushMismatched (v : Hotkey) (hv : v ∈ s.commitments) : CommitRevealState F T :=
  { s with
    mismatchedReveals := s.mismatchedReveals ++ [v]
    mismatched_committed := fun w h => by
      rcases List.mem_append.mp h with h | h
      · exact s.mismatched_committed w h
      · rw [List.mem_singleton.mp h]
        exact hv }

def submitCommitment (commitment : WeightCommitment T) :
    Except CommitRevealError Unit × CommitRevealState F T :=
  if commitment.epoch ≠ s.epoch then (.error (.wrongEpoch s.epoch commitment.epoch), s)
  else if commitment.challengeId ≠ s.challengeId then (.error .wrongChallenge, s)
  else if commitment.validator ∈ s.commitments then (.error .alreadyCommitted, s)
  else (.ok (), s.putCommitment commitment)

def submitReveal [F64 F] (C : Crypto) (s : CommitRevealState F T) (reveal : WeightReveal F T) :
    Except CommitRevealError Unit × CommitRevealState F T :=
  if reveal.epoch ≠ s.epoch then (.error (.wrongEpoch s.epoch reveal.epoch), s)
  else
    match h : s.commitments.lookup reveal.validator with
    | none => (.error .noCommitment, s)
    | some commitment =>
      if createCommitment C reveal.weights reveal.secret ≠ commitment.commitmentHash then
        (.error .commitmentMismatch, s.pushMismatched reveal.validator (mem_of_lookup h))
      else if reveal.validator ∈ s.reveals then (.error .alreadyRevealed, s)
      else (.ok (), s.putReveal reveal (mem_of_lookup h))

/-- the validators that committed and did not reveal, matching or not -/
def unrevealed (byCommit : Iteration Hotkey) : List Hotkey :=
  (s.commitments.keysBy byCommit).filter fun v => v ∉ s.reveals ∧ v ∉ s.mismatchedReveals

/-- the loop at the start of `finalize` -/
def pushMissing (byCommit : Iteration Hotkey) : CommitRevealState F T :=
  { s with
    missingReveals := s.missingReveals ++ s.unrevealed byCommit
    missing_committed := fun v h => by
      rcases List.mem_append.mp h with h | h
      · exact s.missing_committed v h
      · exact mem_keysBy.mp (List.mem_filter.mp h).1 }

def finalize [F64Sub F] (s : CommitRevealState F T) (byCommit byReveal : Iteration Hotkey)
    (_smoothing : F) (minValidators : Nat) (now : T) : Finalized F T × CommitRevealState F T :=
  let s := s.pushMissing byCommit
  let submissions := (s.reveals.valuesBy byReveal).map WeightReveal.weights
  if submissions.length < minValidators then
    (.error (.insufficientValidators minValidators submissions.length), s)
  else
    match submissions with
    | [] => (.panicked, s)
    | first :: _ =>
      (.ok
        { challengeId := s.challengeId
          epoch := s.epoch
          weights := normalizeWeights first
          participatingValidators := s.reveals.keysBy byReveal
          excludedValidators := s.missingReveals ++ s.mismatchedReveals
          smoothingApplied := F64.zero
          finalizedAt := now }
        (checkSubmissionDivergence submissions), s)

end CommitRevealState

inductive CommitRevealOp (F T : Type) where
  | submitCommitment (commitment : WeightCommitment T)
  | submitReveal (reveal : WeightReveal F T)
  | finalize (byCommit byReveal : Iteration Hotkey) (smoothing : F) (minValidators : Nat) (now : T)

inductive CommitRevealOut (F T : Type) where
  | submitted (result : Except CommitRevealError Unit)
  | finalized (outcome : Finalized F T)
deriving DecidableEq

def commitRevealNext {F T : Type} [F64Sub F] (C : Crypto) (s : CommitRevealState F T) :
    CommitRevealOp F T → CommitRevealOut F T × CommitRevealState F T
  | .submitCommitment commitment => (s.submitCommitment commitment).map .submitted id
  | .submitReveal reveal => (s.submitReveal C reveal).map .submitted id
  | .finalize byCommit byReveal smoothing minValidators now =>
    (s.finalize byCommit byReveal smoothing minValidators now).map .finalized id

abbrev CommitRevealCall (F T : Type) :=
  Call (CommitRevealState F T) (CommitRevealOp F T) (CommitRevealOut F T)

/-! ## what a call does -/

section
variable {F T : Type} {s s' : CommitRevealState F T} {c : CommitRevealCall F T}

theorem submitCommitment_cases (s : CommitRevealState F T) (x : WeightCommitment T) :
    (x.epoch = s.epoch ∧ x.challengeId = s.challengeId ∧ x.validator ∉ s.commitments ∧
      s.submitCommitment x = (.ok (), s.putCommitment x)) ∨
    (x.epoch = s.epoch → x.challengeId = s.challengeId → x.validator ∈ s.commitments) ∧
      ∃ e, s.submitCommitment x = (.error e, s) := by
  unfold CommitRevealState.submitCommitment
  split
  case isTrue hepoch => exact .inr ⟨fun h => absurd h hepoch, _, rfl⟩
  case isFalse hepoch =>
    split
    case isTrue hch => exact .inr ⟨fun _ h => absurd h hch, _, rfl⟩
    case isFalse hch =>
      split
      case isTrue hk => exact .inr ⟨fun _ _ => hk, _, rfl⟩
      case isFalse hfr => exact .inl ⟨not_not.mp hepoch, not_not.mp hch, hfr, rfl⟩

/-- All that a call can do, with what it returns. -/
inductive Effect (s : CommitRevealState F T) (C : Crypto) [F64Sub F] :
    CommitRevealCall F T → CommitRevealState F T → Prop
  | commit {c : CommitRevealCall F T} (x : WeightCommitment T)
      (input : c.input = .submitCommitment x) (out : c.out = .submitted (.ok ()))
      (epoch : x.epoch = s.epoch) (challenge : x.challengeId = s.challengeId)
      (fresh : x.validator ∉ s.commitments) : Effect s C c (s.putCommitment x)
  | commitRefused {c : CommitRevealCall F T} (x : WeightCommitment T) (e : CommitRevealError)
      (input : c.input = .submitCommitment x) (out : c.out = .submitted (.error e))
      (why : x.epoch = s.epoch → x.challengeId = s.challengeId → x.validator ∈ s.commitments) :
      Effect s C c s
  | reveal {c : CommitRevealCall F T} (r : WeightReveal F T) (x : WeightCommitment T)
      (input : c.input = .submitReveal r) (out : c.out = .submitted (.ok ()))
      (epoch : r.epoch = s.epoch) (found : s.commitments.lookup r.validator = some x)
      (opens : createCommitment C r.weights r.secret = x.commitmentHash)
      (fresh : r.validator ∉ s.reveals) :
      Effect s C c (s.putReveal r (mem_of_lookup found))
  | mismatch {c : CommitRevealCall F T} (r : WeightReveal F T) (x : WeightCommitment T)
      (input : c.input = .submitReveal r)
      (out : c.out = .submitted (.error .commitmentMismatch))
      (epoch : r.epoch = s.epoch) (found : s.commitments.lookup r.validator = some x)
      (differs : createCommitment C r.weights r.secret ≠ x.commitmentHash) :
      Effect s C c (s.pushMismatched r.validator (mem_of_lookup found))
  | revealRefused {c : CommitRevealCall F T} (r : WeightReveal F T) (e : CommitRevealError)
      (input : c.input = .submitReveal r) (out : c.out = .submitted (.error e))
      (other : e ≠ .commitmentMismatch)
      (why : r.epoch = s.epoch → ∀ x, s.commitments.lookup r.validator = some x →
        createCommitment C r.weights r.secret = x.commitmentHash ∧ r.validator ∈ s.reveals) :
      Effect s C c s
  | finalize {c : CommitRevealCall F T} (byCommit byReveal : Iteration Hotkey) (smoothing : F)
      (minValidators : Nat) (now : T)
      (input : c.input = .finalize byCommit byReveal smoothing minValidators now)
      (out : c.out = .finalized (s.finalize byCommit byReveal smoothing minValidators now).1) :
      Effect s C c (s.pushMissing byCommit)

variable [F64Sub F] {C : Crypto}

theorem submitReveal_cases (s : CommitRevealState F T) (r : WeightReveal F T) :
    (∃ x, ∃ found : s.commitments.lookup r.validator = some x, r.epoch = s.epoch ∧
      createCommitment C r.weights r.secret = x.commitmentHash ∧ r.validator ∉ s.reveals ∧
      s.submitReveal C r = (.ok (), s.putReveal r (mem_of_lookup found))) ∨
    (∃ x, ∃ found : s.commitments.lookup r.validator = some x, r.epoch = s.epoch ∧
      createCommitment C r.weights r.secret ≠ x.commitmentHash ∧
      s.submitReveal C r = (.error .commitmentMismatch,
        s.pushMismatched r.validator (mem_of_lookup found))) ∨
    (r.epoch = s.epoch → ∀ x, s.commitments.lookup r.validator = some x →
        createCommitment C r.weights r.secret = x.commitmentHash ∧ r.validator ∈ s.reveals) ∧
      ∃ e, e ≠ .commitmentMismatch ∧ s.submitReveal C r = (.error e, s) := by
  unfold CommitRevealState.submitReveal
  split
  case isTrue hepoch =>
    exact .inr (.inr ⟨fun h => absurd h hepoch, .wrongEpoch s.epoch r.epoch, nofun, rfl⟩)
  case isFalse hepoch =>
    split
    case h_1 hnone =>
      refine .inr (.inr ⟨fun _ x hx => ?_, .noCommitment, nofun, rfl⟩)
      rw [hnone] at hx
      cases hx
    case h_2 x found =>
      split
      case isTrue hdf => exact .inr (.inl ⟨x, found, not_not.mp hepoch, hdf, rfl⟩)
      case isFalse hon =>
        split
        case isTrue hk =>
          refine .inr (.inr ⟨fun _ y hy => ?_, .alreadyRevealed, nofun, rfl⟩)
          obtain rfl := Option.some.inj (found.symm.trans hy)
          exact ⟨not_not.mp hon, hk⟩
        case isFalse hfr => exact .inl ⟨x, found, not_not.mp hepoch, not_not.mp hon, hfr, rfl⟩

omit [F64Sub F] in
theorem submitCommitment_ok_iff {x : WeightCommitment T} :
    (s.submitCommitment x).1 = .ok () ↔
      x.epoch = s.epoch ∧ x.challengeId = s.challengeId ∧ x.validator ∉ s.commitments := by
  rcases submitCommitment_cases s x with ⟨he, hch, hfr, heq⟩ | ⟨hwh, e, heq⟩
  · rw [heq]
    exact ⟨fun _ => ⟨he, hch, hfr⟩, fun _ => rfl⟩
  · rw [heq]
    exact ⟨nofun, fun ⟨he, hch, hfr⟩ => absurd (hwh he hch) hfr⟩

theorem submitReveal_ok_iff {r : WeightReveal F T} :
    (s.submitReveal C r).1 = .ok () ↔
      r.epoch = s.epoch ∧ (∃ x, s.commitments.lookup r.validator = some x ∧
        createCommitment C r.weights r.secret = x.commitmentHash) ∧ r.validator ∉ s.reveals := by
  rcases submitReveal_cases s r with ⟨x, found, he, hon, hfr, heq⟩ |
    ⟨x, found, he, hdf, heq⟩ | ⟨hwh, e, hoh, heq⟩
  · rw [heq]
    exact ⟨fun _ => ⟨he, ⟨x, found, hon⟩, hfr⟩, fun _ => rfl⟩
  · rw [heq]
    refine ⟨nofun, ?_⟩
    rintro ⟨-, ⟨y, hy, hon⟩, -⟩
    obtain rfl := Option.some.inj (found.symm.trans hy)
    exact absurd hon hdf
  · rw [heq]
    refine ⟨nofun, ?_⟩
    rintro ⟨he, ⟨y, hy, -⟩, hfr⟩
    exact absurd (hwh he y hy).2 hfr

theorem finalize_after (byCommit rv : Iteration Hotkey) (sm : F)
    (mv : Nat) (now : T) :
    (s.finalize byCommit rv sm mv now).2 = s.pushMissing byCommit := by
  unfold CommitRevealState.finalize
  dsimp only
  split
  · rfl
  · split
    · rfl
    · rfl

theorem commitReveal_effect (h : CallStep (commitRevealNext C) s c s') : Effect s C c s' := by
  have ho := h.out_eq
  have ha := h.after_eq
  cases hin : c.input with
  | submitCommitment x =>
    rw [hin] at ho ha
    change c.out = .submitted (s.submitCommitment x).1 at ho
    change s' = (s.submitCommitment x).2 at ha
    rcases submitCommitment_cases s x with ⟨he, hch, hfr, heq⟩ | ⟨hwh, e, heq⟩
    · rw [heq] at ho ha
      rw [ha]
      exact .commit x hin ho he hch hfr
    · rw [heq] at ho ha
      rw [ha]
      exact .commitRefused x e hin ho hwh
  | submitReveal r =>
    rw [hin] at ho ha
    change c.out = .submitted (s.submitReveal C r).1 at ho
    change s' = (s.submitReveal C r).2 at ha
    rcases submitReveal_cases s r with ⟨x, found, he, hon, hfr, heq⟩ |
      ⟨x, found, he, hdf, heq⟩ | ⟨hwh, e, hoh, heq⟩
    · rw [heq] at ho ha
      rw [ha]
      exact .reveal r x hin ho he found hon hfr
    · rw [heq] at ho ha
      rw [ha]
      exact .mismatch r x hin ho he found hdf
    · rw [heq] at ho ha
      rw [ha]
      exact .revealRefused r e hin ho hoh hwh
  | finalize bc rv sm mv now =>
    rw [hin] at ho ha
    rw [ha.trans (finalize_after bc rv sm mv now)]
    exact .finalize bc rv sm mv now hin ho

end

/-! ## the calls of a run -/

section
variable {F T : Type}

def commitOf (c : CommitRevealCall F T) : Option (WeightCommitment T) :=
  match c.input, c.out with
  | .submitCommitment x, .submitted (.ok _) => some x
  | _, _ => none

def revealOf (c : CommitRevealCall F T) : Option (WeightReveal F T) :=
  match c.input, c.out with
  | .submitReveal r, .submitted (.ok _) => some r
  | _, _ => none

def mismatchOf (c : CommitRevealCall F T) : Option Hotkey :=
  match c.input, c.out with
  | .submitReveal r, .submitted (.error .commitmentMismatch) => some r.validator
  | _, _ => none

theorem commitOf_eq_some {c : CommitRevealCall F T} {x : WeightCommitment T} :
    commitOf c = some x ↔ c.input = .submitCommitment x ∧ c.out = .submitted (.ok ()) := by
  constructor
  · intro h
    unfold commitOf at h
    split at h
    case h_1 hin hout =>
      cases h
      exact ⟨hin, hout⟩
    case h_2 => cases h
  · rintro ⟨hin, hout⟩
    rw [commitOf, hin, hout]

theorem revealOf_eq_some {c : CommitRevealCall F T} {r : WeightReveal F T} :
    revealOf c = some r ↔ c.input = .submitReveal r ∧ c.out = .submitted (.ok ()) := by
  constructor
  · intro h
    unfold revealOf at h
    split at h
    case h_1 hin hout =>
      cases h
      exact ⟨hin, hout⟩
    case h_2 => cases h
  · rintro ⟨hin, hout⟩
    rw [revealOf, hin, hout]

variable (l : List (CommitRevealCall F T))

/-- the commitments accepted in a run -/
def committed : List (WeightCommitment T) := l.filterMap commitOf

/-- the reveals accepted in a run -/
def revealed : List (WeightReveal F T) := l.filterMap revealOf

def committers : List Hotkey :=
  (committed l).map WeightCommitment.validator

def revealers : List Hotkey :=
  (revealed l).map WeightReveal.validator

/-- the validators of the reveals of a run that did not match -/
def mismatches : List Hotkey := l.filterMap mismatchOf

variable {l : List (CommitRevealCall F T)} {epoch : UInt64} {challengeId : ChallengeId}
  {s s' : CommitRevealState F T} {c : CommitRevealCall F T}

/-- **What a state knows of its run**: the accepted commitments and reveals, by validator, and the
mismatches as they came. -/
structure Recorded (epoch : UInt64) (challengeId : ChallengeId) (l : List (CommitRevealCall F T))
    (s : CommitRevealState F T) : Prop where
  epoch_eq : s.epoch = epoch
  challenge_eq : s.challengeId = challengeId
  commitments : HashMap.Records WeightCommitment.validator s.commitments (committed l)
  reveals : HashMap.Records WeightReveal.validator s.reveals (revealed l)
  mismatched : s.mismatchedReveals = mismatches l

theorem recorded_new :
    Recorded epoch challengeId []
      (CommitRevealState.new epoch challengeId : CommitRevealState F T) :=
  ⟨rfl, rfl, records_empty _, records_empty _, rfl⟩

theorem Recorded.quiet (h : Recorded epoch challengeId l s) (hcm : commitOf c = none)
    (hrv : revealOf c = none) (hm : mismatchOf c = none) :
    Recorded epoch challengeId (l ++ [c]) s := by
  refine ⟨h.epoch_eq, h.challenge_eq, ?_, ?_, ?_⟩
  · rw [committed, filterMap_snoc_none hcm]
    exact h.commitments
  · rw [revealed, filterMap_snoc_none hrv]
    exact h.reveals
  · rw [mismatches, filterMap_snoc_none hm]
    exact h.mismatched

theorem Recorded.step [F64Sub F] {C : Crypto} (h : Recorded epoch challengeId l s)
    (hst : CallStep (commitRevealNext C) s c s') : Recorded epoch challengeId (l ++ [c]) s' := by
  cases commitReveal_effect hst with
  | commit x inp out _ _ fresh =>
    refine ⟨h.epoch_eq, h.challenge_eq, ?_, ?_, ?_⟩
    · rw [committed, filterMap_snoc_some (by rw [commitOf, inp, out])]
      exact h.commitments.insert fresh
    · rw [revealed, filterMap_snoc_none (by rw [revealOf, inp])]
      exact h.reveals
    · rw [mismatches, filterMap_snoc_none (by rw [mismatchOf, inp])]
      exact h.mismatched
  | commitRefused x e inp out _ =>
    exact h.quiet (by rw [commitOf, inp, out]) (by rw [revealOf, inp]) (by rw [mismatchOf, inp])
  | reveal r x inp out _ found _ fresh =>
    refine ⟨h.epoch_eq, h.challenge_eq, ?_, ?_, ?_⟩
    · rw [committed, filterMap_snoc_none (by rw [commitOf, inp])]
      exact h.commitments
    · rw [revealed, filterMap_snoc_some (by rw [revealOf, inp, out])]
      exact h.reveals.insert fresh
    · rw [mismatches, filterMap_snoc_none (by rw [mismatchOf, inp, out])]
      exact h.mismatched
  | mismatch r x inp out _ found _ =>
    refine ⟨h.epoch_eq, h.challenge_eq, ?_, ?_, ?_⟩
    · rw [committed, filterMap_snoc_none (by rw [commitOf, inp])]
      exact h.commitments
    · rw [revealed, filterMap_snoc_none (by rw [revealOf, inp, out])]
      exact h.reveals
    · rw [mismatches, filterMap_snoc_some (by rw [mismatchOf, inp, out])]
      exact congrArg (· ++ [r.validator]) h.mismatched
  | revealRefused r e inp out other _ =>
    refine h.quiet (by rw [commitOf, inp]) (by rw [revealOf, inp, out]) ?_
    rw [mismatchOf, inp, out]
    cases e with
    | commitmentMismatch => exact absurd rfl other
    | _ => rfl
  | finalize bc rv sm mv now inp out =>
    have hqt := h.quiet (by rw [commitOf, inp]) (by rw [revealOf, inp]) (by rw [mismatchOf, inp])
    exact ⟨hqt.epoch_eq, hqt.challenge_eq, hqt.commitments, hqt.reveals, hqt.mismatched⟩

theorem recorded_run [F64Sub F] {C : Crypto}
    (hrun : MachineRun (commitRevealNext C) (.new epoch challengeId) l s) :
    Recorded epoch challengeId l s :=
  Run.logInvariant (P := Recorded epoch challengeId) recorded_new
    (fun _ _ _ _ _ h hst => h.step hst) hrun

end

/-! ## values for runs on concrete inputs -/

def sampleChallenge : ChallengeId := ⟨List.replicate 16 7, rfl⟩

def sampleReveal (b : UInt8) (weights : List (WeightAssignment ℚ)) : WeightReveal ℚ Nat where
  validator := .ofByte b
  challengeId := sampleChallenge
  epoch := 1
  weights := weights
  secret := [b]
  timestamp := 0

def sampleCommitment (r : WeightReveal ℚ Nat) : WeightCommitment Nat where
  validator := r.validator
  challengeId := r.challengeId
  epoch := r.epoch
  commitmentHash := createCommitment sampleCrypto r.weights r.secret
  timestamp := 0

variable (ops : List (CommitRevealOp ℚ Nat))

def sampleCalls : List (CommitRevealCall ℚ Nat) × CommitRevealState ℚ Nat :=
  trace (commitRevealNext sampleCrypto) (.new 1 sampleChallenge) ops

theorem sampleCalls_run :
    MachineRun (commitRevealNext sampleCrypto) (.new 1 sampleChallenge) (sampleCalls ops).1
      (sampleCalls ops).2 :=
  machineRun_trace _ _ _

def sampleCall (op : CommitRevealOp ℚ Nat) : CommitRevealCall ℚ Nat :=
  (record (commitRevealNext sampleCrypto) (sampleCalls ops).2 op).1

theorem sampleCall_run (op : CommitRevealOp ℚ Nat) :
    MachineRun (commitRevealNext sampleCrypto) (.new 1 sampleChallenge)
      ((sampleCalls ops).1 ++ [sampleCall ops op]) (sampleCall ops op).after :=
  machineRun_record (sampleCalls_run ops) op

end Platform.Epoch
