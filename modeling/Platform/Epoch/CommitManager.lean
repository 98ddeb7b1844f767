import Platform.Epoch.CommitReveal

/-!
# Commit and reveal for all epochs and challenges (`commit_reveal.rs`)

The manager keeps a state for every epoch and challenge.  To each of them its calls look like calls
on that state alone.
-/

namespace Platform.Epoch
open Platform.Core Lib Chain List

abbrev Pair := UInt64 × ChallengeId

structure CommitRevealManager (F T : Type) where
  states : HashMap Pair (CommitRevealState F T)
  keyed : ∀ k s, states.lookup k = some s → s.epoch = k.1 ∧ s.challengeId = k.2

section
variable {F T : Type}

theorem submitCommitment_keeps (s : CommitRevealState F T) (x : WeightCommitment T) :
    (s.submitCommitment x).2.epoch = s.epoch ∧
      (s.submitCommitment x).2.challengeId = s.challengeId := by
  rcases submitCommitment_cases s x with ⟨-, -, -, heq⟩ | ⟨-, e, heq⟩
  · rw [heq]
    exact ⟨rfl, rfl⟩
  · rw [heq]
    exact ⟨rfl, rfl⟩

theorem submitReveal_keeps [F64Sub F] (C : Crypto) (s : CommitRevealState F T)
    (r : WeightReveal F T) :
    (s.submitReveal C r).2.epoch = s.epoch ∧
      (s.submitReveal C r).2.challengeId = s.challengeId := by
  rcases submitReveal_cases s r with ⟨x, found, -, -, -, heq⟩ | ⟨x, found, -, -, heq⟩ |
    ⟨-, e, -, heq⟩
  · rw [heq]
    exact ⟨rfl, rfl⟩
  · rw [heq]
    exact ⟨rfl, rfl⟩
  · rw [heq]
    exact ⟨rfl, rfl⟩

theorem finalize_keeps [F64Sub F] (s : CommitRevealState F T)
    (bc rv : Iteration Hotkey) (sm : F) (mv : Nat) (now : T) :
    (s.finalize bc rv sm mv now).2.epoch = s.epoch ∧
      (s.finalize bc rv sm mv now).2.challengeId = s.challengeId := by
  rw [finalize_after]
  exact ⟨rfl, rfl⟩

namespace CommitRevealManager

def new : CommitRevealManager F T where
  states := ∅
  keyed k s h := by
    rw [AList.lookup_empty] at h
    cases h

variable (m : CommitRevealManager F T) (key : Pair)

/-- `entry(key).or_insert_with(..)` -/
def stateAt : CommitRevealState F T :=
  (m.states.lookup key).getD (.new key.1 key.2)

theorem stateAt_keyed : (m.stateAt key).epoch = key.1 ∧ (m.stateAt key).challengeId = key.2 := by
  unfold stateAt
  cases h : m.states.lookup key with
  | none => exact ⟨rfl, rfl⟩
  | some s => exact m.keyed key s h

def onState {α : Type} (m : CommitRevealManager F T) (key : Pair)
    (f : CommitRevealState F T → α × CommitRevealState F T)
    (hf : ∀ s, (f s).2.epoch = s.epoch ∧ (f s).2.challengeId = s.challengeId) :
    α × CommitRevealManager F T :=
  ((f (m.stateAt key)).1,
    { states := m.states.insert key (f (m.stateAt key)).2
      keyed := fun k s h => by
        rcases (HashMap.lookup_insert_iff _ _ _ _ _).mp h with ⟨rfl, rfl⟩ | ⟨-, h⟩
        · rw [(hf _).1, (hf _).2]
          exact m.stateAt_keyed k
        · exact m.keyed k s h })

def commit (commitment : WeightCommitment T) :
    Except CommitRevealError Unit × CommitRevealManager F T :=
  m.onState key (·.submitCommitment commitment) fun s => submitCommitment_keeps s commitment

variable [F64Sub F]

def reveal (C : Crypto) (m : CommitRevealManager F T) (key : Pair) (r : WeightReveal F T) :
    Except CommitRevealError Unit × CommitRevealManager F T :=
  if key ∈ m.states then m.onState key (·.submitReveal C r) fun s => submitReveal_keeps C s r
  else (.error .noCommitment, m)

def finalize (m : CommitRevealManager F T) (key : Pair) (byCommit byReveal : Iteration Hotkey)
    (smoothing : F) (minValidators : Nat) (now : T) : Finalized F T × CommitRevealManager F T :=
  if key ∈ m.states then
    m.onState key (·.finalize byCommit byReveal smoothing minValidators now) fun s =>
      finalize_keeps s byCommit byReveal smoothing minValidators now
  else (.error (.insufficientValidators minValidators 0), m)

omit [F64Sub F] in
def cleanupOldEpochs (m : CommitRevealManager F T) (currentEpoch keepEpochs : UInt64) :
    CommitRevealManager F T where
  states := m.states.retain fun key _ =>
    decide (currentEpoch.toNat - keepEpochs.toNat ≤ key.1.toNat)
  keyed k s h := m.keyed k s ((HashMap.lookup_retain_iff _ _ _ _).mp h).1

end CommitRevealManager

/-- `commit`, `reveal` and `finalize` with their key, and `cleanup_old_epochs` -/
inductive ManagerOp (F T : Type) where
  | call (key : Pair) (op : CommitRevealOp F T)
  | cleanupOldEpochs (currentEpoch keepEpochs : UInt64)

def managerNext [F64Sub F] (C : Crypto) (m : CommitRevealManager F T) :
    ManagerOp F T → Option (CommitRevealOut F T) × CommitRevealManager F T
  | .call key (.submitCommitment x) => (m.commit key x).map (some ∘ .submitted) id
  | .call key (.submitReveal r) => (m.reveal C key r).map (some ∘ .submitted) id
  | .call key (.finalize byCommit byReveal smoothing minValidators now) =>
    (m.finalize key byCommit byReveal smoothing minValidators now).map (some ∘ .finalized) id
  | .cleanupOldEpochs currentEpoch keepEpochs =>
    (none, m.cleanupOldEpochs currentEpoch keepEpochs)

abbrev ManagerCall (F T : Type) :=
  Call (CommitRevealManager F T) (ManagerOp F T) (Option (CommitRevealOut F T))

/-! ## one pair of a run -/

variable {m m' : CommitRevealManager F T} {k : Pair} {c : ManagerCall F T}

/-- whether a call finds a state; a commitment creates one -/
def Reaches (m : CommitRevealManager F T) (key : Pair) : CommitRevealOp F T → Prop
  | .submitCommitment _ => True
  | .submitReveal _ => key ∈ m.states
  | .finalize .. => key ∈ m.states

instance (m : CommitRevealManager F T) (key : Pair) (op : CommitRevealOp F T) :
    Decidable (Reaches m key op) :=
  match op with
  | .submitCommitment _ => inferInstanceAs (Decidable True)
  | .submitReveal _ => inferInstanceAs (Decidable (key ∈ m.states))
  | .finalize .. => inferInstanceAs (Decidable (key ∈ m.states))

inductive ManagerEffect (m : CommitRevealManager F T) (C : Crypto) [F64Sub F] :
    ManagerCall F T → CommitRevealManager F T → Prop
  | reached {c : ManagerCall F T} {m' : CommitRevealManager F T} (key : Pair)
      (op : CommitRevealOp F T) (input : c.input = .call key op) (reaches : Reaches m key op)
      (out : c.out = some (commitRevealNext C (m.stateAt key) op).1)
      (states : m'.states = m.states.insert key (commitRevealNext C (m.stateAt key) op).2) :
      ManagerEffect m C c m'
  | unreached {c : ManagerCall F T} (key : Pair) (op : CommitRevealOp F T)
      (input : c.input = .call key op) (reaches : ¬ Reaches m key op)
      (refused : c.out = some (.submitted (.error .noCommitment)) ∨
        ∃ n, c.out = some (.finalized (.error (.insufficientValidators n 0)))) :
      ManagerEffect m C c m
  | cleaned {c : ManagerCall F T} (currentEpoch keepEpochs : UInt64)
      (input : c.input = .cleanupOldEpochs currentEpoch keepEpochs) (out : c.out = none) :
      ManagerEffect m C c (m.cleanupOldEpochs currentEpoch keepEpochs)

theorem manager_effect [F64Sub F] {C : Crypto} (h : CallStep (managerNext C) m c m') :
    ManagerEffect m C c m' := by
  have ho := h.out_eq
  have ha := h.after_eq
  cases hin : c.input with
  | call key op =>
    rw [hin] at ho ha
    cases op with
    | submitCommitment x =>
      exact .reached key _ hin trivial ho (congrArg CommitRevealManager.states ha)
    | submitReveal r =>
      change c.out = some (.submitted (m.reveal C key r).1) at ho
      change m' = (m.reveal C key r).2 at ha
      unfold CommitRevealManager.reveal at ho ha
      by_cases hk : key ∈ m.states
      · rw [if_pos hk] at ho ha
        exact .reached key _ hin hk ho (congrArg CommitRevealManager.states ha)
      · rw [if_neg hk] at ho ha
        rw [ha]
        exact .unreached key _ hin hk (.inl ho)
    | finalize bc rv sm mv now =>
      change c.out = some (.finalized (m.finalize key bc rv sm mv now).1) at ho
      change m' = (m.finalize key bc rv sm mv now).2 at ha
      unfold CommitRevealManager.finalize at ho ha
      by_cases hk : key ∈ m.states
      · rw [if_pos hk] at ho ha
        exact .reached key _ hin hk ho (congrArg CommitRevealManager.states ha)
      · rw [if_neg hk] at ho ha
        rw [ha]
        exact .unreached key _ hin hk (.inr ⟨mv, ho⟩)
  | cleanupOldEpochs ce ke =>
    rw [hin] at ho ha
    rw [ha]
    exact .cleaned ce ke hin ho

def callAt (k : Pair) (c : ManagerCall F T) : Option (CommitRevealCall F T) :=
  match c.input, c.out with
  | .call key op, some out =>
    if key = k ∧ Reaches c.before k op then
      some ⟨c.before.stateAt k, op, out, c.after.stateAt k⟩
    else none
  | _, _ => none

theorem callAt_eq_some {d : CommitRevealCall F T} :
    callAt k c = some d ↔ c.input = .call k d.input ∧ c.out = some d.out ∧
      Reaches c.before k d.input ∧ d.before = c.before.stateAt k ∧
      d.after = c.after.stateAt k := by
  constructor
  · intro h
    unfold callAt at h
    split at h
    case h_1 key op out hin hout =>
      split at h
      case isTrue hkey =>
        obtain ⟨rfl, hrc⟩ := hkey
        cases h
        exact ⟨hin, hout, hrc, rfl, rfl⟩
      case isFalse => cases h
    case h_2 => cases h
  · rintro ⟨hin, hout, hrc, hbf, ha⟩
    rw [callAt, hin, hout]
    dsimp only
    rw [if_pos ⟨rfl, hrc⟩, ← hbf, ← ha]

/-- the clean-ups that leave the pair alone -/
def ManagerOp.Keeps (k : Pair) : ManagerOp F T → Prop
  | .call _ _ => True
  | .cleanupOldEpochs currentEpoch keepEpochs =>
    currentEpoch.toNat - keepEpochs.toNat ≤ k.1.toNat

instance (k : Pair) : DecidablePred (ManagerOp.Keeps (F := F) (T := T) k)
  | .call _ _ => inferInstanceAs (Decidable True)
  | .cleanupOldEpochs currentEpoch keepEpochs =>
    inferInstanceAs (Decidable (currentEpoch.toNat - keepEpochs.toNat ≤ k.1.toNat))

variable {r : WeightReveal F T} {s : CommitRevealState F T} {v : Hotkey} {x : WeightCommitment T}

theorem stateAt_insert (h : m'.states = m.states.insert k s) : m'.stateAt k = s := by
  rw [CommitRevealManager.stateAt, h, AList.lookup_insert]
  rfl

theorem stateAt_insert_of_ne {key : Pair} (hne : k ≠ key)
    (h : m'.states = m.states.insert key s) : m'.stateAt k = m.stateAt k := by
  rw [CommitRevealManager.stateAt, h, AList.lookup_insert_ne hne]
  rfl

/-- the calls of a run as the state of `k` sees them -/
def callsAt (k : Pair) (l : List (ManagerCall F T)) : List (CommitRevealCall F T) :=
  l.filterMap (callAt k)

variable [F64Sub F] {C : Crypto} {l : List (ManagerCall F T)}

variable (hrun : MachineRun (managerNext C) .new l m) (hkeeps : ∀ c ∈ l, c.input.Keeps k)
  (hst : CallStep (managerNext C) m c m')

include hrun hkeeps in
/-- **A run of the manager is a run of every one of its states.** -/
theorem project_run :
    MachineRun (commitRevealNext C) (.new k.1 k.2) (callsAt k l) (m.stateAt k) := by
  refine Run.project (CommitRevealManager.stateAt · k) (callAt k) ?_ ?_ (Run.restrict hrun hkeeps)
  · rintro m c m' d ⟨hst, -⟩ hd
    obtain ⟨hin, ho, hrc, hbf, ha⟩ := callAt_eq_some.mp hd
    rw [hst.1] at hrc hbf
    rw [hst.2.1] at ha
    refine ⟨hbf, ha, ?_⟩
    cases manager_effect hst with
    | reached key op inp _ out states =>
      obtain ⟨rfl, rfl⟩ := ManagerOp.call.inj (hin.symm.trans inp)
      rw [stateAt_insert states, Option.some.inj (ho.symm.trans out)]
    | unreached key op inp reaches _ =>
      obtain ⟨rfl, rfl⟩ := ManagerOp.call.inj (hin.symm.trans inp)
      exact absurd hrc reaches
    | cleaned _ _ inp _ => exact nomatch hin.symm.trans inp
  · rintro m c m' ⟨hst, hk⟩ hd
    cases manager_effect hst with
    | reached key op inp reaches out states =>
      refine stateAt_insert_of_ne ?_ states
      rintro rfl
      rw [← hst.1] at reaches
      have hsm : callAt k c = some ⟨c.before.stateAt k, op,
          (commitRevealNext C (m.stateAt k) op).1, c.after.stateAt k⟩ :=
        callAt_eq_some.mpr ⟨inp, out, reaches, rfl, rfl⟩
      exact nomatch hd.symm.trans hsm
    | unreached => rfl
    | cleaned ce ke inp _ =>
      rw [inp] at hk
      have hlk : (m.cleanupOldEpochs ce ke).states.lookup k = m.states.lookup k := by
        refine Option.ext fun s => (HashMap.lookup_retain_iff _ _ _ _).trans ?_
        exact and_iff_left (decide_eq_true hk)
      rw [CommitRevealManager.stateAt, hlk]
      rfl

/-- Every reveal that counts opens the commitment of its validator. -/
def Opens (C : Crypto) (s : CommitRevealState F T) : Prop :=
  ∀ v r, s.reveals.lookup v = some r → ∃ x, s.commitments.lookup v = some x ∧
    createCommitment C r.weights r.secret = x.commitmentHash

theorem Opens.step {s' : CommitRevealState F T} {c : CommitRevealCall F T} (h : Opens C s)
    (hst : CallStep (commitRevealNext C) s c s') : Opens C s' := by
  intro v r hr
  cases commitReveal_effect hst with
  | commit x _ _ _ _ fresh =>
    obtain ⟨y, hy, ho⟩ := h v r hr
    have hne : v ≠ x.validator := fun he => fresh (he ▸ HashMap.mem_of_lookup hy)
    exact ⟨y, (AList.lookup_insert_ne hne).trans hy, ho⟩
  | reveal r' x _ _ _ found opens _ =>
    rcases (HashMap.lookup_insert_iff ..).mp hr with ⟨rfl, rfl⟩ | ⟨-, hr⟩
    · exact ⟨x, found, opens⟩
    · exact h v r hr
  | _ => exact h v r hr

include hrun in
/-- **Only opened commitments count**, at every pair, in every run of the manager. -/
theorem counted_reveals_open (k : Pair) : Opens C (m.stateAt k) := by
  refine Run.invariant (P := fun m => ∀ k, Opens C (m.stateAt k))
    (fun _ _ _ h => absurd h.symm (Option.some_ne_none _)) (fun m c m' ih hst k => ?_) hrun k
  cases manager_effect hst with
  | reached key op _ _ _ states =>
    by_cases hk : k = key
    · subst hk
      rw [stateAt_insert states]
      exact (ih k).step (c := (record (commitRevealNext C) _ op).1) ⟨rfl, rfl, rfl⟩
    · rw [stateAt_insert_of_ne hk states]
      exact ih k
  | unreached => exact ih k
  | cleaned ce ke =>
    have hold := ih k
    unfold CommitRevealManager.stateAt at hold ⊢
    cases hs : (m.cleanupOldEpochs ce ke).states.lookup k with
    | none => exact fun _ _ h => nomatch h
    | some s => rwa [((HashMap.lookup_retain_iff _ _ _ _).mp hs).1] at hold

/-! ## what is accepted -/

def AcceptsCommit (k : Pair) (x : WeightCommitment T) (c : ManagerCall F T) : Prop :=
  c.input = .call k (.submitCommitment x) ∧ c.out = some (.submitted (.ok ()))

def AcceptsReveal (k : Pair) (r : WeightReveal F T) (c : ManagerCall F T) : Prop :=
  c.input = .call k (.submitReveal r) ∧ c.out = some (.submitted (.ok ()))

def Finalizes (k : Pair) (c : ManagerCall F T) : Prop :=
  (∃ byCommit byReveal smoothing minValidators now,
    c.input = .call k (.finalize byCommit byReveal smoothing minValidators now)) ∧
  ∃ fw d, c.out = some (.finalized (.ok fw d))

def HasCommitted (k : Pair) (l : List (ManagerCall F T)) (v : Hotkey) : Prop :=
  ∃ d ∈ l, ∃ x, AcceptsCommit k x d ∧ x.validator = v

def HasRevealed (k : Pair) (l : List (ManagerCall F T)) (v : Hotkey) : Prop :=
  ∃ d ∈ l, ∃ r, AcceptsReveal k r d ∧ r.validator = v

def HasOpening (C : Crypto) (k : Pair) (l : List (ManagerCall F T))
    (r : WeightReveal F T) : Prop :=
  ∃ d ∈ l, ∃ x, AcceptsCommit k x d ∧ x.validator = r.validator ∧
    createCommitment C r.weights r.secret = x.commitmentHash

omit [F64Sub F] in
theorem mem_committed_callsAt : x ∈ committed (callsAt k l) ↔ ∃ c ∈ l, AcceptsCommit k x c := by
  rw [committed, callsAt, mem_filterMap]
  constructor
  · rintro ⟨d, hd, hx⟩
    obtain ⟨c, hc, hcd⟩ := mem_filterMap.mp hd
    obtain ⟨hin, ho, -⟩ := callAt_eq_some.mp hcd
    obtain ⟨hdn, hdt⟩ := commitOf_eq_some.mp hx
    rw [hdn] at hin
    rw [hdt] at ho
    exact ⟨c, hc, hin, ho⟩
  · rintro ⟨c, hc, hin, ho⟩
    let d : CommitRevealCall F T :=
      ⟨c.before.stateAt k, .submitCommitment x, .submitted (.ok ()), c.after.stateAt k⟩
    have hd : callAt k c = some d := callAt_eq_some.mpr ⟨hin, ho, trivial, rfl, rfl⟩
    exact ⟨d, mem_filterMap.mpr ⟨c, hc, hd⟩, rfl⟩

include hst in
theorem AcceptsReveal.reaches (h : AcceptsReveal k r c) : k ∈ c.before.states := by
  obtain ⟨hin, ho⟩ := h
  cases manager_effect hst with
  | reached key op inp reaches out states =>
    obtain ⟨rfl, rfl⟩ := ManagerOp.call.inj (hin.symm.trans inp)
    rw [hst.1]
    exact reaches
  | unreached key op inp reaches refused =>
    rw [ho] at refused
    rcases refused with heq | ⟨n, heq⟩
    · cases heq
    · cases heq
  | cleaned _ _ inp _ => exact nomatch hin.symm.trans inp

include hrun in
theorem mem_revealed_callsAt : r ∈ revealed (callsAt k l) ↔ ∃ c ∈ l, AcceptsReveal k r c := by
  rw [revealed, mem_filterMap]
  constructor
  · rintro ⟨d, hd, hx⟩
    obtain ⟨c, hc, hcd⟩ := mem_filterMap.mp hd
    obtain ⟨hin, ho, -⟩ := callAt_eq_some.mp hcd
    obtain ⟨hdn, hdt⟩ := revealOf_eq_some.mp hx
    rw [hdn] at hin
    rw [hdt] at ho
    exact ⟨c, hc, hin, ho⟩
  · rintro ⟨c, hc, h⟩
    obtain ⟨l₁, l₂, s₁, s₂, -, -, hst, -⟩ := Run.mem_split hrun hc
    let d : CommitRevealCall F T :=
      ⟨c.before.stateAt k, .submitReveal r, .submitted (.ok ()), c.after.stateAt k⟩
    have hd : callAt k c = some d := callAt_eq_some.mpr ⟨h.1, h.2, h.reaches hst, rfl, rfl⟩
    exact ⟨d, mem_filterMap.mpr ⟨c, hc, hd⟩, rfl⟩

omit [F64Sub F] in
theorem mem_commitments_iff {s : CommitRevealState F T}
    (h : Recorded k.1 k.2 (callsAt k l) s) : v ∈ s.commitments ↔ HasCommitted k l v := by
  rw [h.commitments.mem_iff, mem_map]
  constructor
  · rintro ⟨y, hy, hv⟩
    obtain ⟨d, hd, ha⟩ := mem_committed_callsAt.mp hy
    exact ⟨d, hd, y, ha, hv⟩
  · rintro ⟨d, hd, y, ha, hv⟩
    exact ⟨y, mem_committed_callsAt.mpr ⟨d, hd, ha⟩, hv⟩

include hrun in
theorem mem_reveals_iff {s : CommitRevealState F T} (h : Recorded k.1 k.2 (callsAt k l) s) :
    v ∈ s.reveals ↔ HasRevealed k l v := by
  rw [h.reveals.mem_iff, mem_map]
  constructor
  · rintro ⟨r, hr, hv⟩
    obtain ⟨d, hd, ha⟩ := (mem_revealed_callsAt hrun).mp hr
    exact ⟨d, hd, r, ha, hv⟩
  · rintro ⟨d, hd, r, ha, hv⟩
    exact ⟨r, (mem_revealed_callsAt hrun).mpr ⟨d, hd, ha⟩, hv⟩

include hrun hkeeps hst in
theorem accepts_commit_iff (hin : c.input = .call k (.submitCommitment x)) :
    AcceptsCommit k x c ↔ x.epoch = k.1 ∧ x.challengeId = k.2 ∧ ¬ HasCommitted k l x.validator := by
  have h := recorded_run (project_run hrun hkeeps)
  have ho : c.out = some (.submitted ((m.stateAt k).submitCommitment x).1) := by
    rw [hst.out_eq, hin]
    rfl
  rw [← mem_commitments_iff h, ← h.epoch_eq, ← h.challenge_eq, ← submitCommitment_ok_iff]
  constructor
  · rintro ⟨-, hok⟩
    exact CommitRevealOut.submitted.inj (Option.some.inj (ho.symm.trans hok))
  · intro hok
    exact ⟨hin, by rw [ho, hok]⟩

include hst in
theorem acceptsReveal_iff_ok (hin : c.input = .call k (.submitReveal r)) :
    AcceptsReveal k r c ↔ ((m.stateAt k).submitReveal C r).1 = .ok () := by
  cases manager_effect hst with
  | reached key op inp _ out _ =>
    obtain ⟨rfl, rfl⟩ := ManagerOp.call.inj (hin.symm.trans inp)
    constructor
    · rintro ⟨-, hok⟩
      exact CommitRevealOut.submitted.inj (Option.some.inj (out.symm.trans hok))
    · intro hok
      exact ⟨hin, out.trans (congrArg (some ∘ CommitRevealOut.submitted) hok)⟩
  | unreached key op inp reaches _ =>
    obtain ⟨rfl, rfl⟩ := ManagerOp.call.inj (hin.symm.trans inp)
    have hn : m.stateAt k = .new k.1 k.2 := by
      rw [CommitRevealManager.stateAt, AList.lookup_eq_none.mpr reaches]
      rfl
    constructor
    · intro ha
      have hrc := ha.reaches hst
      rw [hst.1] at hrc
      exact absurd hrc reaches
    · intro hok
      obtain ⟨-, ⟨x, hx, -⟩, -⟩ := submitReveal_ok_iff.mp hok
      rw [hn] at hx
      cases hx
  | cleaned _ _ inp _ => exact nomatch hin.symm.trans inp

include hrun hkeeps hst in
theorem accepts_reveal_iff (hin : c.input = .call k (.submitReveal r)) :
    AcceptsReveal k r c ↔ r.epoch = k.1 ∧ HasOpening C k l r ∧ ¬ HasRevealed k l r.validator := by
  have h := recorded_run (project_run hrun hkeeps)
  have hon : (∃ x, (m.stateAt k).commitments.lookup r.validator = some x ∧
      createCommitment C r.weights r.secret = x.commitmentHash) ↔ HasOpening C k l r := by
    constructor
    · rintro ⟨x, hx, hh⟩
      obtain ⟨hm, hv⟩ := (h.commitments.lookup_iff _ _).mp hx
      obtain ⟨d, hd, ha⟩ := mem_committed_callsAt.mp hm
      exact ⟨d, hd, x, ha, hv, hh⟩
    · rintro ⟨d, hd, y, ha, hv, hh⟩
      have hm := mem_committed_callsAt.mpr ⟨d, hd, ha⟩
      exact ⟨y, (h.commitments.lookup_iff _ _).mpr ⟨hm, hv⟩, hh⟩
  rw [acceptsReveal_iff_ok hst hin, submitReveal_ok_iff, hon, mem_reveals_iff hrun h, h.epoch_eq]

/-! ## the phases -/

def CommitsFirst (k : Pair) (l : List (ManagerCall F T)) : Prop :=
  ∀ l₁ c, l₁ ++ [c] <+: l → ∀ x, AcceptsCommit k x c → ¬ ∃ d ∈ l₁, ∃ r, AcceptsReveal k r d

def CommitsClosed (k : Pair) (l : List (ManagerCall F T)) : Prop :=
  ∀ l₁ c, l₁ ++ [c] <+: l → ∀ x, AcceptsCommit k x c → ¬ ∃ d ∈ l₁, Finalizes k d

def RevealsClosed (k : Pair) (l : List (ManagerCall F T)) : Prop :=
  ∀ l₁ c, l₁ ++ [c] <+: l → ∀ r, AcceptsReveal k r c → ¬ ∃ d ∈ l₁, Finalizes k d

structure LateRefused (C : Crypto) (k : Pair) (l : List (ManagerCall F T)) : Prop where
  commit : ∀ l₁ c, l₁ ++ [c] <+: l → ∀ x, c.input = .call k (.submitCommitment x) →
    (∃ d ∈ l₁, (∃ r, AcceptsReveal k r d) ∨ Finalizes k d) →
    x.epoch ≠ k.1 ∨ x.challengeId ≠ k.2 ∨ HasCommitted k l₁ x.validator
  reveal : ∀ l₁ c, l₁ ++ [c] <+: l → ∀ r, c.input = .call k (.submitReveal r) →
    (∃ d ∈ l₁, Finalizes k d) →
    r.epoch ≠ k.1 ∨ ¬ HasOpening C k l₁ r ∨ HasRevealed k l₁ r.validator

include hrun hkeeps in
theorem cut_run {l₁ : List (ManagerCall F T)} (hc : l₁ ++ [c] <+: l) :
    ∃ m₁ m₂, MachineRun (managerNext C) .new l₁ m₁ ∧ (∀ d ∈ l₁, d.input.Keeps k) ∧
      CallStep (managerNext C) m₁ c m₂ := by
  obtain ⟨l₂, rfl⟩ := hc
  obtain ⟨m₂, hpr, -⟩ := Run.split hrun
  obtain ⟨m₁, hrun₁, hst⟩ := hpr.snoc_inv
  refine ⟨m₁, m₂, hrun₁, fun d hd => hkeeps d ?_, hst⟩
  exact mem_append_left _ (mem_append_left _ hd)

/-- **When the phases are kept.**  In a run whose clean-ups leave the pair alone, commitments come
before reveals and both before the end if and only if every call that comes too late is refused for
another reason: the phase of a pair is not checked. -/
theorem phases_iff (hrun : MachineRun (managerNext C) .new l m)
    (hkeeps : ∀ c ∈ l, c.input.Keeps k) :
    CommitsFirst k l ∧ CommitsClosed k l ∧ RevealsClosed k l ↔ LateRefused C k l := by
  constructor
  · rintro ⟨hfr, hcl, hrl⟩
    constructor
    · intro l₁ c hc x hin hlt
      obtain ⟨m₁, m₂, hrun₁, hk₁, hst⟩ := cut_run hrun hkeeps hc
      have hnt : ¬ AcceptsCommit k x c := by
        intro ha
        obtain ⟨d, hd, hrv | hfn⟩ := hlt
        · exact hfr l₁ c hc x ha ⟨d, hd, hrv⟩
        · exact hcl l₁ c hc x ha ⟨d, hd, hfn⟩
      rw [accepts_commit_iff hrun₁ hk₁ hst hin] at hnt
      tauto
    · intro l₁ c hc r hin hlt
      obtain ⟨m₁, m₂, hrun₁, hk₁, hst⟩ := cut_run hrun hkeeps hc
      have hnt : ¬ AcceptsReveal k r c := fun ha => hrl l₁ c hc r ha hlt
      rw [accepts_reveal_iff hrun₁ hk₁ hst hin] at hnt
      tauto
  · intro hlt
    have hcm : ∀ l₁ c, l₁ ++ [c] <+: l → ∀ x, AcceptsCommit k x c →
        ¬ ∃ d ∈ l₁, (∃ r, AcceptsReveal k r d) ∨ Finalizes k d := by
      intro l₁ c hc x ha hex
      obtain ⟨m₁, m₂, hrun₁, hk₁, hst⟩ := cut_run hrun hkeeps hc
      have hch := (accepts_commit_iff hrun₁ hk₁ hst ha.1).mp ha
      have hrf := hlt.commit l₁ c hc x ha.1 hex
      tauto
    refine ⟨?_, ?_, ?_⟩
    · rintro l₁ c hc x ha ⟨d, hd, hrv⟩
      exact hcm l₁ c hc x ha ⟨d, hd, .inl hrv⟩
    · rintro l₁ c hc x ha ⟨d, hd, hfn⟩
      exact hcm l₁ c hc x ha ⟨d, hd, .inr hfn⟩
    · intro l₁ c hc r ha hex
      obtain ⟨m₁, m₂, hrun₁, hk₁, hst⟩ := cut_run hrun hkeeps hc
      have hch := (accepts_reveal_iff hrun₁ hk₁ hst ha.1).mp ha
      have hrf := hlt.reveal l₁ c hc r ha.1 hex
      tauto

omit [F64Sub F] in
def ManagerOp.phase : ManagerOp F T → Nat
  | .call _ (.submitCommitment _) => 0
  | .call _ (.submitReveal _) => 1
  | .call _ (.finalize ..) => 2
  | .cleanupOldEpochs .. => 3

theorem lateRefused_of_phases
    (h : l.Pairwise fun d c => d.input.phase ≤ c.input.phase) : LateRefused C k l := by
  have hbf : ∀ l₁ c, l₁ ++ [c] <+: l → ∀ d ∈ l₁, d.input.phase ≤ c.input.phase := by
    intro l₁ c hc d hd
    exact (pairwise_append.mp (h.sublist hc.sublist)).2.2 d hd c mem_cons_self
  constructor
  · rintro l₁ c hc x hin ⟨d, hd, ⟨r, hr⟩ | hfn⟩
    · have hle := hbf l₁ c hc d hd
      rw [hin, hr.1] at hle
      exact absurd hle (Nat.not_succ_le_zero 0)
    · obtain ⟨⟨_, _, _, _, _, hdn⟩, -⟩ := hfn
      have hle := hbf l₁ c hc d hd
      rw [hin, hdn] at hle
      exact absurd hle (Nat.not_succ_le_zero 1)
  · rintro l₁ c hc r hin ⟨d, hd, ⟨_, _, _, _, _, hdn⟩, -⟩
    have hle := hbf l₁ c hc d hd
    rw [hin, hdn] at hle
    exact absurd hle (Nat.not_succ_le_self 1)

end

def managerCalls (ops : List (ManagerOp ℚ Nat)) :
    List (ManagerCall ℚ Nat) × CommitRevealManager ℚ Nat :=
  trace (managerNext sampleCrypto) .new ops

def samplePair : Pair := (1, sampleChallenge)

/-- the weights of the validator `b` are committed, and then revealed -/
def commitCall (b : UInt8) : ManagerOp ℚ Nat :=
  .call samplePair (.submitCommitment (sampleCommitment (sampleReveal b [⟨"a", 1⟩])))

def revealCall (b : UInt8) : ManagerOp ℚ Nat :=
  .call samplePair (.submitReveal (sampleReveal b [⟨"a", 1⟩]))

def finalizeCall : ManagerOp ℚ Nat :=
  .call samplePair (.finalize (.leading (.ofByte 1)) (.leading (.ofByte 1)) 0 1 9)

/-- two validators in the order of the phases -/
def phasedOps : List (ManagerOp ℚ Nat) :=
  [commitCall 1, commitCall 2, revealCall 1, revealCall 2, finalizeCall]

theorem phases_two :
    (CommitsFirst samplePair (managerCalls phasedOps).1 ∧
      CommitsClosed samplePair (managerCalls phasedOps).1 ∧
      RevealsClosed samplePair (managerCalls phasedOps).1) ∧
    (managerCalls phasedOps).2.states.size = 1 := by
  refine ⟨?_, by decide +kernel⟩
  have hps : phasedOps.Pairwise fun a b => a.phase ≤ b.phase := by decide
  rw [← map_input_trace (managerNext sampleCrypto) .new phasedOps, pairwise_map] at hps
  refine (phases_iff (machineRun_trace (managerNext sampleCrypto) .new phasedOps) ?_).mpr
    (lateRefused_of_phases hps)
  intro c hc
  have hm := mem_map_of_mem (f := Call.input) hc
  rw [map_input_trace] at hm
  exact (by decide : ∀ op ∈ phasedOps, op.Keeps samplePair) _ hm

def earlyCalls := managerCalls [commitCall 1, revealCall 1]

def endCall : ManagerCall ℚ Nat := (record (managerNext sampleCrypto) earlyCalls.2 finalizeCall).1

def lateCommit : ManagerCall ℚ Nat :=
  (record (managerNext sampleCrypto) endCall.after (commitCall 2)).1

def lateReveal : ManagerCall ℚ Nat :=
  (record (managerNext sampleCrypto) lateCommit.after (revealCall 2)).1

theorem early_run : MachineRun (managerNext sampleCrypto) .new earlyCalls.1 earlyCalls.2 :=
  machineRun_trace _ _ _

theorem early_reveal_opens :
    (earlyCalls.2.stateAt samplePair).reveals.size = 1 ∧
      Opens sampleCrypto (earlyCalls.2.stateAt samplePair) :=
  ⟨by decide +kernel, counted_reveals_open early_run samplePair⟩

theorem late_run : MachineRun (managerNext sampleCrypto) .new
    (earlyCalls.1 ++ [endCall] ++ [lateCommit] ++ [lateReveal]) lateReveal.after :=
  machineRun_record (machineRun_record (machineRun_record early_run _) _) _

theorem late_keeps : ∀ c ∈ earlyCalls.1 ++ [endCall] ++ [lateCommit] ++ [lateReveal],
    c.input.Keeps samplePair := by
  decide +kernel

theorem endCall_finalizes : Finalizes samplePair endCall := by
  refine ⟨⟨.leading (.ofByte 1), .leading (.ofByte 1), 0, 1, 9, rfl⟩, ?_⟩
  exact ⟨⟨sampleChallenge, 1, [⟨"a", 1⟩], [.ofByte 1], [], 0, 9⟩, false, by decide +kernel⟩

/-- A commitment is accepted after a reveal, and commitments and reveals after the end. -/
theorem phases_not_kept :
    (¬ ∀ (C : Crypto) (k : Pair) (l : List (ManagerCall ℚ Nat)) (m : CommitRevealManager ℚ Nat),
      MachineRun (managerNext C) .new l m → (∀ c ∈ l, c.input.Keeps k) → CommitsFirst k l) ∧
    (¬ ∀ (C : Crypto) (k : Pair) (l : List (ManagerCall ℚ Nat)) (m : CommitRevealManager ℚ Nat),
      MachineRun (managerNext C) .new l m → (∀ c ∈ l, c.input.Keeps k) → CommitsClosed k l) ∧
    ¬ ∀ (C : Crypto) (k : Pair) (l : List (ManagerCall ℚ Nat)) (m : CommitRevealManager ℚ Nat),
      MachineRun (managerNext C) .new l m → (∀ c ∈ l, c.input.Keeps k) → RevealsClosed k l := by
  have hcm : AcceptsCommit samplePair (sampleCommitment (sampleReveal 2 [⟨"a", 1⟩]))
      lateCommit := ⟨rfl, by decide +kernel⟩
  have hrv : AcceptsReveal samplePair (sampleReveal 2 [⟨"a", 1⟩]) lateReveal :=
    ⟨rfl, by decide +kernel⟩
  have hen : endCall ∈ earlyCalls.1 ++ [endCall] := mem_append_right _ mem_cons_self
  refine ⟨fun h => ?_, fun h => ?_, fun h => ?_⟩
  · obtain ⟨d, hd, ha⟩ := (mem_revealed_callsAt (k := samplePair) (r := sampleReveal 1 [⟨"a", 1⟩])
      early_run).mp (by decide +kernel)
    exact h _ _ _ _ late_run late_keeps _ _ (prefix_append _ _) _ hcm
      ⟨d, mem_append_left _ hd, _, ha⟩
  · exact h _ _ _ _ late_run late_keeps _ _ (prefix_append _ _) _ hcm
      ⟨endCall, hen, endCall_finalizes⟩
  · exact h _ _ _ _ late_run late_keeps _ _ prefix_rfl _ hrv
      ⟨endCall, mem_append_left _ hen, endCall_finalizes⟩

end Platform.Epoch
