import Platform.Subnet.Health
import Platform.Subnet.Updates

/-!
# Recovery (`crates/subnet-manager/src/recovery.rs`)

A check looks at the health of the node and executes at most one action.  It writes the time of its
attempts, except when the attempts are used up: then it rolls back or pauses at every call.  The
flag `auto_recover` is never read.

* Instants are numbers of nanoseconds; a check reads the clock once.
* The state that a rollback restores is dropped.
-/

namespace Platform.Subnet
open Platform.Core Lib Chain List

inductive RecoveryAction where
  | restartEvaluations
  | clearJobQueue
  | reconnectPeers
  | rollbackToSnapshot (id : Uuid)
  | hardReset (reason : String)
  | pause
  | resume
deriving DecidableEq

structure RecoveryAttempt (T : Type) where
  id : Uuid
  action : RecoveryAction
  reason : String
  timestamp : T
  success : Bool
  details : String

structure RecoveryManager (T : Type) where
  config : RecoveryConfig
  history : List (RecoveryAttempt T)
  currentAttempts : UInt32
  lastRecovery : Option Nat
  paused : Bool

/-- what an action reads from the system: clocks, ids for the attempt and for an update, and the
orders of maps -/
structure RecoveryEnv (T : Type) where
  now : T
  instant : Nat
  attemptId : Uuid
  updateId : Uuid
  challenges : Iteration String
  components : Iteration Component

/-- what an action may change -/
structure RecoveryState (T : Type) where
  recovery : RecoveryManager T
  updates : UpdateManager T
  disk : Disk

section
variable {F T : Type}

variable (C : Crypto) (fmt : DateFormat T)

def rollbackToSnapshot (it : Iteration String) (id : Uuid) :
    DiskM (ChainState T) := do
  let snapshot ← SnapshotManager.restoreSnapshot C fmt id
  SnapshotManager.applySnapshot fmt it snapshot

/-- the work of an action: whether it succeeded, and the details -/
def performAction (env : RecoveryEnv T) (s : RecoveryState T) :
    RecoveryAction → Bool × String × RecoveryState T
  | .restartEvaluations => (true, "Signaled evaluation restart", s)
  | .clearJobQueue => (true, "Job queue cleared", s)
  | .reconnectPeers => (true, "Signaled peer reconnection", s)
  | .rollbackToSnapshot id =>
    -- the state that was restored is not used
    match rollbackToSnapshot C fmt env.challenges id s.disk with
    | .ok _ d => (true, "Rolled back to snapshot " ++ uuidText id, { s with disk := d })
    | .error e d => (false, "Rollback failed: " ++ e, { s with disk := d })
  | .hardReset reason =>
    (true, "Hard reset queued: " ++ reason,
      { s with updates := (s.updates.queueUpdate ⟨env.now, env.updateId⟩ .allChallenges
        (.hardReset reason true none) "recovery").2 })
  | .pause => (true, "Subnet paused", { s with recovery := { s.recovery with paused := true } })
  | .resume =>
    (true, "Subnet resumed",
      { s with recovery := { s.recovery with paused := false, currentAttempts := 0 } })

def executeRecovery (env : RecoveryEnv T) (action : RecoveryAction) (s : RecoveryState T) :
    RecoveryAttempt T × RecoveryState T :=
  let (success, details, s) := performAction C fmt env s action
  let attempt := ⟨env.attemptId, action, "Automatic recovery", env.now, success, details⟩
  (attempt, { s with recovery := { s.recovery with history := s.recovery.history ++ [attempt] } })

def actionFor (config : RecoveryConfig) (it : Iteration Component) (health : HealthMonitor F T) :
    Option RecoveryAction :=
  match health.currentStatus with
  | .critical =>
    some (if config.pauseOnCritical then .pause else .hardReset "Critical health status")
  | .unhealthy =>
    match health.worstComponent it with
    | some (.jobQueue, _) => some .clearJobQueue
    | some (.network, _) => some .reconnectPeers
    | _ => some .restartEvaluations
  | .degraded => some .restartEvaluations
  | .healthy => none

/-- the action when the attempts are used up -/
def lastResort [LinearOrder T] (config : RecoveryConfig) (snapshots : SnapshotManager T) :
    Option RecoveryAction :=
  if config.rollbackOnFailure then
    snapshots.latestSnapshot.map fun m => .rollbackToSnapshot m.id
  else if config.pauseOnCritical then some .pause
  else none

def attempt (env : RecoveryEnv T) (action : Option RecoveryAction) (s : RecoveryState T) :
    Option (RecoveryAttempt T) × RecoveryState T :=
  match action with
  | some action => Prod.map some (fun s => s) (executeRecovery C fmt env action s)
  | none => (none, s)

def RecoveryConfig.cooldown (config : RecoveryConfig) : Nat := config.cooldownSecs.toNat * 10 ^ 9

/-- The last attempt is not long enough ago. -/
def RecoveryManager.cooling (m : RecoveryManager T) (now : Nat) : Bool :=
  m.lastRecovery.any fun last => decide (now - last < m.config.cooldown)

def checkAndRecover [LinearOrder T] (C : Crypto) (fmt : DateFormat T) (cfg : HealthConfig)
    (env : RecoveryEnv T) (health : HealthMonitor F T) (snapshots : SnapshotManager T)
    (s : RecoveryState T) : Option (RecoveryAttempt T) × RecoveryState T :=
  if s.recovery.paused ∧ health.currentStatus ≠ .critical then (none, s)
  else if s.recovery.cooling env.instant then (none, s)
  else if health.needsRecovery cfg = false ∧ health.currentStatus ≠ .critical then
    (none, { s with recovery := { s.recovery with currentAttempts := 0 } })
  else if s.recovery.config.maxAttempts ≤ s.recovery.currentAttempts then
    attempt C fmt env (lastResort s.recovery.config snapshots) s
  else
    attempt C fmt env (actionFor s.recovery.config env.components health)
      { s with recovery :=
        { s.recovery with
          currentAttempts := s.recovery.currentAttempts + 1
          lastRecovery := some env.instant } }

/-! ## one check -/

structure RecoveryInput (F T : Type) where
  env : RecoveryEnv T
  health : HealthMonitor F T
  snapshots : SnapshotManager T

abbrev RecoveryCall (F T : Type) :=
  Call (RecoveryState T) (RecoveryInput F T) (Option (RecoveryAttempt T))

def RecoveryState.exhausted (s : RecoveryState T) : Prop :=
  s.recovery.config.maxAttempts ≤ s.recovery.currentAttempts

/-- An action is due: the node is not paused, or it is critical; the cooldown is over; there is
need, and there is an action. -/
def Due [LinearOrder T] (cfg : HealthConfig) (input : RecoveryInput F T) (s : RecoveryState T) :
    Prop :=
  (s.recovery.paused = true → input.health.currentStatus = .critical) ∧
    s.recovery.cooling input.env.instant = false ∧
    (input.health.needsRecovery cfg = true ∨ input.health.currentStatus = .critical) ∧
    (s.exhausted → (lastResort s.recovery.config input.snapshots).isSome) ∧
    (¬ s.exhausted → input.health.currentStatus ≠ .healthy)

variable {C : Crypto} {fmt : DateFormat T} {cfg : HealthConfig} {s s' : RecoveryState T}
  {input : RecoveryInput F T}

theorem isSome_attempt {env : RecoveryEnv T} {act : Option RecoveryAction} :
    (attempt C fmt env act s).1.isSome = act.isSome := by
  cases act with
  | none => rfl
  | some act => rfl

theorem attempt_keeps {env : RecoveryEnv T} {act : Option RecoveryAction} :
    (attempt C fmt env act s).2.recovery.config = s.recovery.config ∧
      (attempt C fmt env act s).2.recovery.lastRecovery = s.recovery.lastRecovery := by
  cases act with
  | none => exact ⟨rfl, rfl⟩
  | some act =>
    cases act with
    | rollbackToSnapshot id =>
      simp only [attempt, executeRecovery, performAction, Prod.map]
      split
      · exact ⟨rfl, rfl⟩
      · exact ⟨rfl, rfl⟩
    | _ => exact ⟨rfl, rfl⟩

theorem wait_of_not_cooling {m : RecoveryManager T} {now last : Nat} (h : m.cooling now = false)
    (hls : m.lastRecovery = some last) : m.config.cooldown ≤ now - last := by
  unfold RecoveryManager.cooling at h
  rw [hls, Option.any_some, decide_eq_false_iff_not] at h
  exact not_lt.mp h

theorem isSome_actionFor {config : RecoveryConfig} {it : Iteration Component}
    {health : HealthMonitor F T} :
    (actionFor config it health).isSome = true ↔ health.currentStatus ≠ .healthy := by
  unfold actionFor
  cases health.currentStatus with
  | healthy => simp
  | degraded => simp
  | critical => simp
  | unhealthy =>
    simp only [ne_eq, reduceCtorEq, not_false_eq_true, iff_true]
    split <;> rfl

variable [LinearOrder T]

def recoverNext (C : Crypto) (fmt : DateFormat T) (cfg : HealthConfig) (s : RecoveryState T)
    (input : RecoveryInput F T) : Option (RecoveryAttempt T) × RecoveryState T :=
  checkAndRecover C fmt cfg input.env input.health input.snapshots s

/-- **What a check does**: whether it executes an action, and which times it keeps. -/
theorem recoverNext_spec (C : Crypto) (fmt : DateFormat T) (cfg : HealthConfig)
    (input : RecoveryInput F T) (s : RecoveryState T) :
    ((recoverNext C fmt cfg s input).1.isSome = true ↔ Due cfg input s) ∧
      (recoverNext C fmt cfg s input).2.recovery.config = s.recovery.config ∧
      ((recoverNext C fmt cfg s input).2.recovery.lastRecovery = s.recovery.lastRecovery ∧
          ((recoverNext C fmt cfg s input).1.isSome = true → s.exhausted) ∨
        (recoverNext C fmt cfg s input).2.recovery.lastRecovery = some input.env.instant) := by
  unfold recoverNext checkAndRecover Due
  by_cases hps : s.recovery.paused = true ∧ input.health.currentStatus ≠ .critical
  · rw [if_pos hps]
    exact ⟨iff_of_false Bool.false_ne_true fun hd => hps.2 (hd.1 hps.1), rfl, .inl ⟨rfl, nofun⟩⟩
  rw [if_neg hps]
  by_cases hcl : s.recovery.cooling input.env.instant = true
  · rw [if_pos hcl]
    refine ⟨iff_of_false Bool.false_ne_true fun hd => ?_, rfl, .inl ⟨rfl, nofun⟩⟩
    exact Bool.false_ne_true (hd.2.1.symm.trans hcl)
  rw [if_neg hcl]
  by_cases hnd : input.health.needsRecovery cfg = false ∧ input.health.currentStatus ≠ .critical
  · rw [if_pos hnd]
    refine ⟨iff_of_false Bool.false_ne_true fun hd => ?_, rfl, .inl ⟨rfl, nofun⟩⟩
    exact hd.2.2.1.elim (fun hn => Bool.false_ne_true (hnd.1.symm.trans hn)) hnd.2
  rw [if_neg hnd]
  have hps : s.recovery.paused = true → input.health.currentStatus = .critical :=
    fun h => not_not.mp fun hc => hps ⟨h, hc⟩
  have hnd : input.health.needsRecovery cfg = true ∨ input.health.currentStatus = .critical := by
    by_contra hnt
    rw [not_or, Bool.not_eq_true] at hnt
    exact hnd hnt
  have hcl := Bool.eq_false_iff.mpr hcl
  by_cases hm : s.recovery.config.maxAttempts ≤ s.recovery.currentAttempts
  · rw [if_pos hm, isSome_attempt]
    refine ⟨?_, attempt_keeps.1, .inl ⟨attempt_keeps.2, fun _ => hm⟩⟩
    exact ⟨fun h => ⟨hps, hcl, hnd, fun _ => h, fun hnt => absurd hm hnt⟩, fun hd => hd.2.2.2.1 hm⟩
  · rw [if_neg hm, isSome_attempt, isSome_actionFor]
    refine ⟨?_, attempt_keeps.1, .inr attempt_keeps.2⟩
    exact ⟨fun h => ⟨hps, hcl, hnd, fun h => absurd h hm, fun _ => h⟩, fun hd => hd.2.2.2.2 hm⟩

/-! ## runs -/

def RecoveryCall.executes (call : RecoveryCall F T) : Bool := call.out.isSome

/-- The second call comes at least the cooldown after the first. -/
def Apart (config : RecoveryConfig) (a b : RecoveryCall F T) : Prop :=
  config.cooldown ≤ b.input.env.instant - a.input.env.instant

variable {s₀ : RecoveryState T} {log : List (RecoveryCall F T)} {config : RecoveryConfig}

/-- After an attempt that was counted the next action waits. -/
structure Waits (config : RecoveryConfig) (log : List (RecoveryCall F T)) (s : RecoveryState T) :
    Prop where
  config_eq : s.recovery.config = config
  last : ∀ a ∈ log.filter RecoveryCall.executes, ¬ a.before.exhausted →
    ∃ last, s.recovery.lastRecovery = some last ∧ a.input.env.instant ≤ last
  apart : (log.filter RecoveryCall.executes).Pairwise fun a b => ¬ a.before.exhausted →
    Apart config a b

theorem Waits.step {call : RecoveryCall F T} (h : Waits config log s)
    (hstep : CallStep (recoverNext C fmt cfg) s call s')
    (hcl : ∀ a ∈ log, a.input.env.instant ≤ call.input.env.instant) :
    Waits config (log ++ [call]) s' := by
  obtain ⟨hdu, hcf, htm⟩ := recoverNext_spec C fmt cfg call.input s
  rw [← hstep.after_eq] at htm hcf
  rw [← hstep.out_eq] at htm hdu
  refine ⟨hcf.trans h.config_eq, ?_, ?_⟩
  · intro a ha hcn
    rw [filter_append] at ha
    rcases mem_append.mp ha with ha | ha
    · obtain ⟨last, hls, hle⟩ := h.last a ha hcn
      rcases htm with ⟨hs, -⟩ | hnw
      · exact ⟨last, hs.trans hls, hle⟩
      · exact ⟨_, hnw, hcl a (mem_filter.mp ha).1⟩
    · obtain ⟨hm, hex⟩ := mem_filter.mp ha
      obtain rfl := mem_singleton.mp hm
      rcases htm with ⟨-, hu⟩ | hnw
      · exact absurd (hstep.1 ▸ hu hex) hcn
      · exact ⟨_, hnw, le_refl _⟩
  · rw [filter_append]
    refine pairwise_append.mpr ⟨h.apart, List.Pairwise.filter _ (pairwise_singleton _ call), ?_⟩
    intro a ha b hb hcn
    obtain ⟨hm, hex⟩ := mem_filter.mp hb
    obtain rfl := mem_singleton.mp hm
    obtain ⟨last, hls, hle⟩ := h.last a ha hcn
    have hwt := wait_of_not_cooling (hdu.mp hex).2.1 hls
    rw [h.config_eq] at hwt
    exact hwt.trans (Nat.sub_le_sub_left hle _)

theorem waits_of_run (hrun : MachineRun (recoverNext C fmt cfg) s₀ log s)
    (hcl : log.Pairwise fun a b => a.input.env.instant ≤ b.input.env.instant) :
    Waits s₀.recovery.config log s := by
  induction hrun with
  | nil => exact ⟨rfl, fun a ha => absurd ha not_mem_nil, .nil⟩
  | snoc _ hstep ih =>
    rw [pairwise_append] at hcl
    exact (ih hcl.1).step hstep fun a ha => hcl.2.2 a ha _ mem_cons_self

/-- **Recovery cooldown** holds exactly when no action falls due within the cooldown after one that
was due with the attempts used up, and `auto_recover` is on or no action was ever due. -/
theorem recovery_cooldown_iff (hconfig : s₀.recovery.config = config)
    (hrun : MachineRun (recoverNext C fmt cfg) s₀ log s)
    (hclock : log.Pairwise fun a b => a.input.env.instant ≤ b.input.env.instant) :
    ((log.filter RecoveryCall.executes).Pairwise (Apart config) ∧
        (config.autoRecover = false → ∀ call ∈ log, call.out = none)) ↔
      (log.Pairwise (fun a b => a.before.exhausted → Due cfg a.input a.before →
          Due cfg b.input b.before → Apart config a b) ∧
        (config.autoRecover = true ∨ ∀ call ∈ log, ¬ Due cfg call.input call.before)) := by
  subst hconfig
  have hcn := (waits_of_run hrun hclock).apart
  have hdu : ∀ call ∈ log, (call.executes = true ↔ Due cfg call.input call.before) := by
    intro call hcl
    obtain ⟨_, _, _, _, _, _, ⟨rfl, rfl, hstep⟩, _⟩ := Run.mem_split hrun hcl
    have hsp := (recoverNext_spec C fmt cfg call.input call.before).1
    rwa [hstep] at hsp
  rw [pairwise_filter] at hcn ⊢
  refine and_congr ⟨fun h => ?_, fun h => ?_⟩ ?_
  · refine h.imp_of_mem fun ha hb hab _ hda hdb => ?_
    exact hab ((hdu _ ha).mpr hda) ((hdu _ hb).mpr hdb)
  · refine (h.and hcn).imp_of_mem fun ha hb ⟨hu, hfr⟩ hea heb => ?_
    exact (em _).elim (fun hx => hu hx ((hdu _ ha).mp hea) ((hdu _ hb).mp heb)) (hfr hea heb)
  · rw [← Bool.not_eq_false, ← imp_iff_not_or]
    refine imp_congr_right fun _ => forall₂_congr fun call hcl => ?_
    rw [← hdu call hcl, RecoveryCall.executes, Bool.not_eq_true, Option.isSome_eq_false_iff,
      Option.isNone_iff_eq_none]

end

/-! ## a node that stays critical -/

def criticalAt (instant : Nat) : RecoveryInput Nat (Fin 2) where
  env := ⟨sampleTime, instant, uuidOfByte 3, uuidOfByte 4, .asListed, .asListed⟩
  health :=
    (trace (healthNext twoChecks) .new [.check ⟨sampleTime, fun _ => uuidOfByte 1⟩ noPeers]).2
  snapshots := ⟨5, [SnapshotManager.entryOf sampleDates firstSnapshot]⟩

/-- the node at its start, without files -/
def recoveryStart (config : RecoveryConfig) : RecoveryState (Fin 2) :=
  ⟨⟨config, [], 0, none, false⟩, .new, ⟨∅, []⟩⟩

def recoveryRun (config : RecoveryConfig) (instants : List Nat) :
    List (RecoveryCall Nat (Fin 2)) × RecoveryState (Fin 2) :=
  trace (recoverNext sampleCrypto sampleDates twoChecks) (recoveryStart config)
    (instants.map criticalAt)

theorem first_attempts_apart :
    ((recoveryRun .default [0, 60000000000]).1.filter RecoveryCall.executes).Pairwise
        (Apart .default) ∧
      (RecoveryConfig.default.autoRecover = false →
        ∀ call ∈ (recoveryRun .default [0, 60000000000]).1, call.out = none) := by
  have hcn : (recoveryStart .default).recovery.config = .default := rfl
  refine (recovery_cooldown_iff hcn (machineRun_trace _ _ _) ?_).mpr ⟨?_, .inl rfl⟩
  · exact pairwise_pair.mpr (Nat.zero_le _)
  · exact pairwise_pair.mpr fun hu => absurd hu (show ¬ (3 : UInt32) ≤ 0 by decide)

/-- After three attempts the node is rolled back at every check, and `auto_recover` is off. -/
theorem rollbacks_without_pause :
    (recoveryRun { RecoveryConfig.default with autoRecover := false }
      [0, 60000000000, 120000000000, 180000000000, 180000000001]).1.map
        (fun call => (call.input.env.instant, call.out.map RecoveryAttempt.action)) =
      [(0, some .pause), (60000000000, some .pause), (120000000000, some .pause),
        (180000000000, some (.rollbackToSnapshot (uuidOfByte 1))),
        (180000000001, some (.rollbackToSnapshot (uuidOfByte 1)))] := by
  decide +kernel

end Platform.Subnet
