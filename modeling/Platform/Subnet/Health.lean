import Platform.Lib.MaxBy
import Platform.Subnet.Config

/-!
# The health monitor (`crates/subnet-manager/src/health.rs`)

A check looks at six components.  A component in trouble raises an alert unless one of its alerts is
open, and only a new alert adds to its failure count; a healthy component loses its count and its
alerts are closed.  The operator closes alerts too.

* The clock is read once for a check, and the ids of new alerts are drawn for each component.
* Counters are `u32` and `u64` and wrap, as in a release build.

* `unacknowledged_trouble`   trouble that is never counted twice.
-/

namespace Platform.Subnet
open Platform.Core Lib Chain List

/-- the operations of `f32` that the checks use -/
class Single (F : Type) where
  ofNat : Nat → F
  half : F
  lt : F → F → Bool
  mul : F → F → F
  div : F → F → F
  /-- `{:.1}` -/
  display1 : F → String

/-- whole percents -/
instance : Single Nat where
  ofNat n := n
  half := 0
  lt a b := decide (a < b)
  mul a b := a * b
  div a b := a / b
  display1 n := n.repr ++ ".0"

inductive HealthStatus where
  | healthy
  | degraded
  | unhealthy
  | critical
deriving DecidableEq

inductive AlertSeverity where
  | info
  | warning
  | error
  | critical
deriving DecidableEq

inductive Component where
  | memory
  | cpu
  | disk
  | jobQueue
  | evaluations
  | network
deriving DecidableEq

/-- the components in the order of the checks -/
def Component.all : List Component := [memory, cpu, disk, jobQueue, evaluations, network]

theorem Component.mem_all (c : Component) : c ∈ all := by
  cases c <;> decide

theorem Component.nodup_all : all.Nodup := by decide

structure HealthMetrics (F : Type) where
  memoryPercent : F
  cpuPercent : F
  diskPercent : F
  pendingJobs : UInt32
  runningJobs : UInt32
  evaluationsPerHour : UInt32
  failuresPerHour : UInt32
  avgEvalTimeMs : UInt64
  connectedPeers : UInt32
  blockHeight : UInt64
  epoch : UInt64
  uptimeSecs : UInt64

structure ComponentHealth (T : Type) where
  component : Component
  status : HealthStatus
  details : String
  lastSuccess : Option T

structure HealthAlert (T : Type) where
  id : Uuid
  severity : AlertSeverity
  message : String
  component : Component
  createdAt : T
  acknowledged : Bool

structure HealthCheck (F T : Type) where
  timestamp : T
  status : HealthStatus
  components : List (ComponentHealth T)
  alerts : List (HealthAlert T)
  metrics : HealthMetrics F

/-- `HealthMonitor`, without its configuration, its start and the last metrics, which nothing reads
-/
structure HealthMonitor (F T : Type) where
  history : List (HealthCheck F T)
  alerts : List (HealthAlert T)
  failureCounts : HashMap Component UInt32

/-- what a check reads from the system -/
structure CheckEnv (T : Type) where
  now : T
  newId : Component → Uuid

/-! ## what a component is found to be -/

/-- the outcome for one component: its status, the alert it raises, its details, and whether the
check counts as a success -/
structure Finding where
  status : HealthStatus
  alert : Option (AlertSeverity × String)
  details : String
  succeeded : Bool

section
variable {F : Type} [Single F]

/-- the checks of memory and disk -/
def usageFinding (title : String) (percent threshold : F) : Finding :=
  let details := Single.display1 percent ++ "% used"
  if Single.lt (Single.ofNat 95) percent then
    ⟨.critical, some (.critical, title ++ " critical: " ++ Single.display1 percent ++ "%"), details,
      false⟩
  else if Single.lt threshold percent then
    ⟨.degraded, some (.warning, title ++ " high: " ++ Single.display1 percent ++ "%"), details,
      true⟩
  else ⟨.healthy, none, details, true⟩

def checkMemory (cfg : HealthConfig) (m : HealthMetrics F) : Finding :=
  usageFinding "Memory" m.memoryPercent (Single.ofNat cfg.memoryWarnPercent.toNat)

def checkCpu (cfg : HealthConfig) (m : HealthMetrics F) : Finding :=
  let details := Single.display1 m.cpuPercent ++ "% used"
  if Single.lt (Single.ofNat cfg.cpuWarnPercent.toNat) m.cpuPercent then
    ⟨.degraded, some (.warning, "CPU high: " ++ Single.display1 m.cpuPercent ++ "%"), details, true⟩
  else ⟨.healthy, none, details, true⟩

def checkDisk (cfg : HealthConfig) (m : HealthMetrics F) : Finding :=
  usageFinding "Disk" m.diskPercent (Single.ofNat cfg.diskWarnPercent.toNat)

def checkJobQueue (cfg : HealthConfig) (m : HealthMetrics F) : Finding :=
  let details := m.pendingJobs.toNat.repr ++ " pending, " ++ m.runningJobs.toNat.repr ++ " running"
  if cfg.maxPendingJobs * 2 < m.pendingJobs then
    ⟨.unhealthy,
      some (.error, "Job queue overloaded: " ++ m.pendingJobs.toNat.repr ++ " pending"), details,
      false⟩
  else if cfg.maxPendingJobs < m.pendingJobs then
    ⟨.degraded, some (.warning, "Job queue high: " ++ m.pendingJobs.toNat.repr ++ " pending"),
      details, true⟩
  else ⟨.healthy, none, details, true⟩

/-- the share of evaluations that failed -/
def failureRate (m : HealthMetrics F) : F :=
  let total := m.evaluationsPerHour + m.failuresPerHour
  if 0 < total then
    Single.div (Single.ofNat m.failuresPerHour.toNat) (Single.ofNat total.toNat)
  else Single.ofNat 0

def checkEvaluations (cfg : HealthConfig) (m : HealthMetrics F) : Finding :=
  let rate := Single.display1 (Single.mul (failureRate m) (Single.ofNat 100))
  let details := rate ++ "% failure rate, " ++ m.avgEvalTimeMs.toNat.repr ++ "ms avg"
  if Single.lt Single.half (failureRate m) then
    ⟨.critical, some (.critical, "High failure rate: " ++ rate ++ "%"), details, false⟩
  else if cfg.maxEvalTime * 1000 < m.avgEvalTimeMs then
    ⟨.degraded, some (.warning, "Slow evaluations: " ++ m.avgEvalTimeMs.toNat.repr ++ "ms avg"),
      details, true⟩
  else
    ⟨.healthy, none,
      m.evaluationsPerHour.toNat.repr ++ "/hr, " ++ m.avgEvalTimeMs.toNat.repr ++ "ms avg", true⟩

def checkNetwork (m : HealthMetrics F) : Finding :=
  let details := m.connectedPeers.toNat.repr ++ " peers connected"
  if m.connectedPeers = 0 then
    ⟨.critical, some (.critical, "No connected peers"), "0 peers connected", false⟩
  else if m.connectedPeers < 3 then
    ⟨.degraded, some (.warning, "Low peer count: " ++ m.connectedPeers.toNat.repr), details, true⟩
  else ⟨.healthy, none, details, true⟩

def finding (cfg : HealthConfig) (m : HealthMetrics F) : Component → Finding
  | .memory => checkMemory cfg m
  | .cpu => checkCpu cfg m
  | .disk => checkDisk cfg m
  | .jobQueue => checkJobQueue cfg m
  | .evaluations => checkEvaluations cfg m
  | .network => checkNetwork m

/-- Just the components in trouble raise alerts. -/
def Finding.Consistent (f : Finding) : Prop := f.status = .healthy ↔ f.alert = none

theorem Finding.Consistent.bad {status : HealthStatus} {alert : AlertSeverity × String}
    {details : String} {suc : Bool} (h : status ≠ .healthy) :
    Finding.Consistent ⟨status, some alert, details, suc⟩ :=
  iff_of_false h (Option.some_ne_none alert)

theorem Finding.Consistent.good {details : String} {suc : Bool} :
    Finding.Consistent ⟨.healthy, none, details, suc⟩ := iff_of_true rfl rfl

theorem usageFinding_consistent (title : String) (percent threshold : F) :
    (usageFinding title percent threshold).Consistent := by
  unfold usageFinding
  split
  · exact .bad nofun
  · split
    · exact .bad nofun
    · exact .good

theorem finding_consistent (cfg : HealthConfig) (m : HealthMetrics F) (c : Component) :
    (finding cfg m c).Consistent := by
  cases c with
  | memory | disk => exact usageFinding_consistent _ _ _
  | cpu =>
    show (checkCpu cfg m).Consistent
    unfold checkCpu
    split
    · exact .bad nofun
    · exact .good
  | jobQueue =>
    show (checkJobQueue cfg m).Consistent
    unfold checkJobQueue
    split
    · exact .bad nofun
    · split
      · exact .bad nofun
      · exact .good
  | evaluations =>
    show (checkEvaluations cfg m).Consistent
    unfold checkEvaluations
    split
    · exact .bad nofun
    · split
      · exact .bad nofun
      · exact .good
  | network =>
    show (checkNetwork m).Consistent
    unfold checkNetwork
    split
    · exact .bad nofun
    · split
      · exact .bad nofun
      · exact .good

end

/-! ## the monitor -/

def worseStatus : HealthStatus → HealthStatus → HealthStatus
  | .critical, _ | _, .critical => .critical
  | .unhealthy, _ | _, .unhealthy => .unhealthy
  | .degraded, _ | _, .degraded => .degraded
  | .healthy, .healthy => .healthy

namespace HealthMonitor
variable {F T : Type}

def new : HealthMonitor F T := ⟨[], [], ∅⟩

def isOpen (h : HealthMonitor F T) (c : Component) : Bool :=
  h.alerts.any fun a => decide (a.component = c) && !a.acknowledged

def countOf (h : HealthMonitor F T) (c : Component) : UInt32 := (h.failureCounts.lookup c).getD 0

def addAlert (env : CheckEnv T) (c : Component) (severity : AlertSeverity) (message : String)
    (h : HealthMonitor F T) : HealthMonitor F T :=
  if h.isOpen c then h
  else
    { h with
      alerts := h.alerts ++ [⟨env.newId c, severity, message, c, env.now, false⟩]
      failureCounts := h.failureCounts.insert c (h.countOf c + 1) }

def clearFailure (c : Component) (h : HealthMonitor F T) : HealthMonitor F T :=
  { h with
    failureCounts := h.failureCounts.erase c
    alerts := h.alerts.map fun a => if a.component = c then { a with acknowledged := true } else a }

def settle (env : CheckEnv T) (c : Component) (alert : Option (AlertSeverity × String))
    (h : HealthMonitor F T) : HealthMonitor F T :=
  match alert with
  | some (severity, message) => h.addAlert env c severity message
  | none => h.clearFailure c

def acknowledgeAlert (id : Uuid) (h : HealthMonitor F T) : HealthMonitor F T :=
  { h with
    alerts := h.alerts.modify (h.alerts.findIdx fun a => decide (a.id = id)) fun a =>
      { a with acknowledged := true } }

def currentStatus (h : HealthMonitor F T) : HealthStatus :=
  (h.history.getLast?.map HealthCheck.status).getD .healthy

def needsRecovery (cfg : HealthConfig) (h : HealthMonitor F T) : Bool :=
  h.failureCounts.values.any fun count => decide (cfg.failureThreshold ≤ count)

def worstComponent (it : Iteration Component) (h : HealthMonitor F T) :
    Option (Component × UInt32) :=
  maxByKey (fun p : Component × UInt32 => p.2.toNat) (h.failureCounts.pairsBy it)

def activeAlerts (h : HealthMonitor F T) : List (HealthAlert T) :=
  h.alerts.filter fun a => !a.acknowledged

variable [Single F]

def checkComponent (env : CheckEnv T) (cfg : HealthConfig) (m : HealthMetrics F) (c : Component)
    (h : HealthMonitor F T) : ComponentHealth T × HealthMonitor F T :=
  let f := finding cfg m c
  (⟨c, f.status, f.details, if f.succeeded then some env.now else none⟩, h.settle env c f.alert)

def checkAll (env : CheckEnv T) (cfg : HealthConfig) (m : HealthMetrics F) :
    List Component → HealthMonitor F T → List (ComponentHealth T) × HealthMonitor F T
  | [], h => ([], h)
  | c :: cs, h =>
    let (found, h) := h.checkComponent env cfg m c
    Prod.map (found :: ·) (fun h => h) (checkAll env cfg m cs h)

def overall (components : List (ComponentHealth T)) : HealthStatus :=
  components.foldl
    (fun status c => if c.status ≠ .healthy then worseStatus status c.status else status) .healthy

def pushHistory (history : List (HealthCheck F T)) (check : HealthCheck F T) :
    List (HealthCheck F T) :=
  if 100 < (history ++ [check]).length then (history ++ [check]).tail else history ++ [check]

def check (env : CheckEnv T) (cfg : HealthConfig) (m : HealthMetrics F) (h : HealthMonitor F T) :
    HealthCheck F T × HealthMonitor F T :=
  let (components, h) := checkAll env cfg m Component.all h
  let result := ⟨env.now, overall components, components, h.alerts, m⟩
  (result, { h with history := pushHistory h.history result })

end HealthMonitor

/-! ## one component -/

namespace HealthMonitor
variable {F T : Type} {h : HealthMonitor F T} {c c' : Component}

/-- what the monitor keeps of a component: whether an alert is open, and the failure count -/
def view (h : HealthMonitor F T) (c : Component) : Bool × UInt32 := (h.isOpen c, h.countOf c)

/-- the failure count after a check: it starts again, stays or grows -/
def countAfter (bad isOpen : Bool) (count : UInt32) : UInt32 :=
  if bad then if isOpen then count else count + 1 else 0

variable (env : CheckEnv T) (alert : Option (AlertSeverity × String))

theorem view_settle_self : (h.settle env c alert).view c =
    (alert.isSome, countAfter alert.isSome (h.isOpen c) (h.countOf c)) := by
  cases alert with
  | none =>
    have ho : (h.clearFailure c).isOpen c = false := by
      unfold isOpen clearFailure
      rw [any_map, any_eq_false]
      intro a ha
      by_cases hc : a.component = c
      · simp [hc]
      · simp [hc]
    show ((h.clearFailure c).isOpen c, ((h.failureCounts.erase c).lookup c).getD 0) = _
    rw [ho, AList.lookup_erase]
    rfl
  | some alert =>
    show (h.addAlert env c alert.1 alert.2).view c = _
    unfold addAlert
    split
    · next ho =>
      rw [view, ho]
      rfl
    · next ho =>
      show (isOpen _ c, ((h.failureCounts.insert c _).lookup c).getD 0) = _
      rw [AList.lookup_insert, Bool.eq_false_iff.mpr ho]
      simp [isOpen, countAfter]

theorem view_settle_ne (hne : c' ≠ c) : (h.settle env c alert).view c' = h.view c' := by
  cases alert with
  | none =>
    have ho : (h.clearFailure c).isOpen c' = h.isOpen c' := by
      unfold isOpen clearFailure
      rw [any_map]
      refine any_congr rfl fun a => ?_
      by_cases hc : a.component = c
      · simp [hc, Ne.symm hne]
      · simp [hc]
    show ((h.clearFailure c).isOpen c', ((h.failureCounts.erase c).lookup c').getD 0) = _
    rw [ho, AList.lookup_erase_ne hne]
    rfl
  | some alert =>
    show (h.addAlert env c alert.1 alert.2).view c' = _
    unfold addAlert
    split
    · rfl
    · show (isOpen _ c', ((h.failureCounts.insert c _).lookup c').getD 0) = _
      rw [AList.lookup_insert_ne hne]
      simp [view, isOpen, countOf, Ne.symm hne]

/-! ## a check -/

variable [Single F]

def troubled (cfg : HealthConfig) (m : HealthMetrics F) (c : Component) : Bool :=
  decide ((finding cfg m c).status ≠ .healthy)

variable (cfg : HealthConfig) (m : HealthMetrics F) (h : HealthMonitor F T)

theorem view_checkAll (c : Component) {cs : List Component} (hnd : cs.Nodup) :
    (checkAll env cfg m cs h).2.view c =
      if c ∈ cs then (troubled cfg m c, countAfter (troubled cfg m c) (h.isOpen c) (h.countOf c))
      else h.view c := by
  induction cs generalizing h with
  | nil => rfl
  | cons c₀ cs ih =>
    obtain ⟨hnt, hnd⟩ := nodup_cons.mp hnd
    refine (ih (h.checkComponent env cfg m c₀).2 hnd).trans ?_
    by_cases heq : c = c₀
    · subst heq
      have hbd : (finding cfg m c).alert.isSome = troubled cfg m c := by
        rw [troubled, Bool.eq_iff_iff, Option.isSome_iff_ne_none, decide_eq_true_eq]
        exact not_congr (finding_consistent cfg m c).symm
      rw [if_neg hnt, if_pos mem_cons_self, ← hbd]
      exact view_settle_self env _
    · have hoh : (h.checkComponent env cfg m c₀).2.view c = h.view c := view_settle_ne env _ heq
      obtain ⟨ho, hcn⟩ := Prod.mk.inj hoh
      rw [hoh, ho, hcn]
      simp [heq]

/-- **What a check does to a component.** -/
theorem check_spec (c : Component) :
    (h.check env cfg m).2.isOpen c = troubled cfg m c ∧
      (h.check env cfg m).2.countOf c =
        countAfter (troubled cfg m c) (h.isOpen c) (h.countOf c) := by
  have hvw := view_checkAll env cfg m h c Component.nodup_all
  rw [if_pos c.mem_all] at hvw
  exact Prod.mk.inj hvw

end HealthMonitor

/-! ## runs -/

section
variable {F T : Type}

def HealthCheck.statusOf (check : HealthCheck F T) (c : Component) : Option HealthStatus :=
  (check.components.find? fun found => decide (found.component = c)).map ComponentHealth.status

inductive HealthInput (F T : Type) where
  | check (env : CheckEnv T) (metrics : HealthMetrics F)
  | acknowledge (id : Uuid)

abbrev HealthCall (F T : Type) :=
  Call (HealthMonitor F T) (HealthInput F T) (Option (HealthCheck F T))

def unhealthyIn (c : Component) (call : HealthCall F T) : Bool :=
  call.out.any fun check => decide (check.statusOf c ≠ some .healthy)

/-- the last checks, latest first, as long as they have found the component in trouble -/
def streakCalls (c : Component) (log : List (HealthCall F T)) : List (HealthCall F T) :=
  (log.filter fun call => call.out.isSome).reverse.takeWhile (unhealthyIn c)

/-- for how many checks the component has been in trouble -/
def streak (c : Component) (log : List (HealthCall F T)) : Nat := (streakCalls c log).length

/-- how many of these checks found no alert of the component open, and raised one -/
def raised (c : Component) (log : List (HealthCall F T)) : Nat :=
  (streakCalls c log).countP fun call => !call.before.isOpen c

variable {c : Component} {log : List (HealthCall F T)} {call : HealthCall F T}

theorem streakCalls_of_none (ho : call.out = none) :
    streakCalls c (log ++ [call]) = streakCalls c log := by
  unfold streakCalls
  rw [filter_append, filter_singleton, ho]
  simp

theorem streakCalls_of_some {check : HealthCheck F T} (ho : call.out = some check) :
    streakCalls c (log ++ [call]) =
      if unhealthyIn c call then call :: streakCalls c log else [] := by
  unfold streakCalls
  rw [filter_append, filter_singleton, ho]
  simp [takeWhile_cons]

variable {cfg : HealthConfig} {h h' : HealthMonitor F T}

theorem needsRecovery_iff (hth : 1 ≤ cfg.failureThreshold.toNat) :
    h.needsRecovery cfg = true ↔ ∃ c, cfg.failureThreshold.toNat ≤ (h.countOf c).toNat := by
  unfold HealthMonitor.needsRecovery
  rw [any_eq_true]
  constructor
  · rintro ⟨cnt, hmem, hle⟩
    obtain ⟨c, hc⟩ := (HashMap.mem_values _ _).mp hmem
    refine ⟨c, ?_⟩
    rw [HealthMonitor.countOf, hc]
    exact UInt32.le_iff_toNat_le.mp (of_decide_eq_true hle)
  · rintro ⟨c, hle⟩
    rw [HealthMonitor.countOf] at hle
    cases hc : h.failureCounts.lookup c with
    | none =>
      rw [hc] at hle
      exact absurd (hth.trans hle) (by decide)
    | some cnt =>
      rw [hc] at hle
      exact ⟨cnt, (HashMap.mem_values _ _).mpr ⟨c, hc⟩,
        decide_eq_true (UInt32.le_iff_toNat_le.mpr hle)⟩

variable [Single F]

def healthNext (cfg : HealthConfig) (h : HealthMonitor F T) :
    HealthInput F T → Option (HealthCheck F T) × HealthMonitor F T
  | .check env metrics => Prod.map some (fun h => h) (h.check env cfg metrics)
  | .acknowledge id => (none, h.acknowledgeAlert id)

theorem raised_check {env : CheckEnv T} {m : HealthMetrics F}
    (hstep : CallStep (healthNext cfg) h call h') (hip : call.input = .check env m) :
    raised c (log ++ [call]) =
      if HealthMonitor.troubled cfg m c then
        if h.isOpen c then raised c log else raised c log + 1
      else 0 := by
  have ho := hstep.out_eq
  rw [hip] at ho
  have hch : call.out = some (h.check env cfg m).1 := ho
  have hbd : unhealthyIn c call = HealthMonitor.troubled cfg m c := by
    rw [unhealthyIn, hch]
    show decide ((h.check env cfg m).1.statusOf c ≠ _) = decide _
    rw [show (h.check env cfg m).1.statusOf c = some (finding cfg m c).status by cases c <;> rfl]
    simp
  rw [raised, streakCalls_of_some hch, hbd]
  cases HealthMonitor.troubled cfg m c with
  | false => rfl
  | true =>
    rw [if_pos rfl, countP_cons, hstep.1]
    cases h.isOpen c with
    | false => rfl
    | true => rfl

/-- **The failure count**: how many alerts the component has raised since it was last healthy. -/
theorem countOf_of_run (hrun : MachineRun (healthNext cfg) .new log h) (c : Component) :
    h.countOf c = .ofNat (raised c log) := by
  refine Run.logInvariant (P := fun l (h : HealthMonitor F T) => h.countOf c = .ofNat (raised c l))
    rfl ?_ hrun
  intro l h call h' _ hcn hstep
  have ha := hstep.after_eq
  cases hip : call.input with
  | acknowledge id =>
    have ho := hstep.out_eq
    rw [hip] at ho ha
    rw [raised, streakCalls_of_none ho, ha]
    exact hcn
  | check env m =>
    rw [raised_check hstep hip, ha, hip]
    show (h.check env cfg m).2.countOf c = _
    rw [(HealthMonitor.check_spec env cfg m h c).2, hcn]
    cases HealthMonitor.troubled cfg m c with
    | false => rfl
    | true =>
      cases h.isOpen c with
      | true => rfl
      | false =>
        show UInt32.ofNat _ + 1 = UInt32.ofNat (_ + 1)
        rw [UInt32.ofNat_add]
        rfl

/-- **Persistent trouble triggers recovery** exactly when trouble that has lasted for the threshold
comes with a component that has raised as many alerts since it was last healthy; a new alert is
raised only after the last one was closed, and the count wraps at `2 ^ 32`. -/
theorem persistent_trouble_iff (hrun : MachineRun (healthNext cfg) .new log h)
    (hthreshold : 1 ≤ cfg.failureThreshold.toNat) :
    (h.needsRecovery cfg = true ↔ ∃ c, cfg.failureThreshold.toNat ≤ streak c log) ↔
      ((∃ c, cfg.failureThreshold.toNat ≤ streak c log) →
        ∃ c, cfg.failureThreshold.toNat ≤ raised c log % 2 ^ 32) := by
  have hnd : h.needsRecovery cfg = true ↔
      ∃ c, cfg.failureThreshold.toNat ≤ raised c log % 2 ^ 32 := by
    rw [needsRecovery_iff hthreshold]
    simp only [countOf_of_run hrun, UInt32.toNat_ofNat']
  have hle : ∀ c, raised c log % 2 ^ 32 ≤ streak c log := by
    intro c
    exact (Nat.mod_le _ _).trans countP_le_length
  rw [hnd]
  constructor
  · intro hif
    exact hif.mpr
  · intro h
    refine ⟨?_, h⟩
    rintro ⟨c, hc⟩
    exact ⟨c, hc.trans (hle c)⟩

end

/-! ## a node without peers -/

def twoChecks : HealthConfig := { HealthConfig.default with failureThreshold := 2 }

def noPeers : HealthMetrics Nat where
  memoryPercent := 10
  cpuPercent := 10
  diskPercent := 10
  pendingJobs := 0
  runningJobs := 0
  evaluationsPerHour := 0
  failuresPerHour := 0
  avgEvalTimeMs := 0
  connectedPeers := 0
  blockHeight := 0
  epoch := 0
  uptimeSecs := 0

def checkNoPeers : HealthInput Nat Nat := .check ⟨0, fun _ => uuidOfByte 1⟩ noPeers

def healthRun (inputs : List (HealthInput Nat Nat)) :
    List (HealthCall Nat Nat) × HealthMonitor Nat Nat :=
  trace (healthNext twoChecks) .new inputs

theorem acknowledged_trouble :
    (healthRun [checkNoPeers, .acknowledge (uuidOfByte 1), checkNoPeers]).2.needsRecovery
        twoChecks = true ↔
      ∃ c,
        2 ≤ streak c (healthRun [checkNoPeers, .acknowledge (uuidOfByte 1), checkNoPeers]).1 := by
  refine (persistent_trouble_iff (machineRun_trace (healthNext twoChecks) .new
    [checkNoPeers, .acknowledge (uuidOfByte 1), checkNoPeers]) (by decide)).mpr fun _ => ?_
  exact ⟨.network, by decide +kernel⟩

theorem unacknowledged_trouble :
    (healthRun [checkNoPeers, checkNoPeers]).2.needsRecovery twoChecks = false ∧
      streak .network (healthRun [checkNoPeers, checkNoPeers]).1 = 2 := by
  exact ⟨by decide +kernel, by decide +kernel⟩

end Platform.Subnet
