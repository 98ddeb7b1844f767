import Platform.Lib.Files
import Platform.State.Persist
import Platform.Subnet.Commands

/-!
# The configuration of a subnet and its ban list (`crates/subnet-manager/src/config.rs`)

Both are kept in the data directory as JSON texts.  `T` stands for `chrono::DateTime<Utc>`, written
as text, and an `f64` is its bit pattern: nothing here computes with one.
-/

namespace Platform.Subnet
open Platform.Core Lib Chain

/-- the data directory: its files under their paths in it -/
abbrev Disk := Drive String

abbrev DiskM (α : Type) := FileM String α

def uuidOfByte (b : UInt8) : Uuid := ⟨List.replicate 16 b, List.length_replicate⟩

/-- a UUID in its hyphenated form -/
def uuidText (u : Uuid) : String := State.ChallengeId.toText ⟨u.bytes, u.len⟩

def parseUuid (s : String) : Option Uuid :=
  (State.ChallengeId.ofText s).map fun id => ⟨id.uuid, id.len⟩

theorem parseUuid_uuidText (u : Uuid) : parseUuid (uuidText u) = some u := by
  unfold parseUuid uuidText
  rw [State.ChallengeId.ofText_toText]
  rfl

theorem uuidText_inj {u v : Uuid} (h : uuidText u = uuidText v) : u = v := by
  have hr := parseUuid_uuidText u
  rw [h, parseUuid_uuidText] at hr
  exact (Option.some.inj hr).symm

/-! ## the configuration -/

structure RecoveryConfig where
  autoRecover : Bool
  maxAttempts : UInt32
  cooldownSecs : UInt64
  rollbackOnFailure : Bool
  pauseOnCritical : Bool
deriving DecidableEq

def RecoveryConfig.default : RecoveryConfig where
  autoRecover := true
  maxAttempts := 3
  cooldownSecs := 60
  rollbackOnFailure := true
  pauseOnCritical := true

structure HealthConfig where
  checkInterval : UInt64
  failureThreshold : UInt32
  memoryWarnPercent : UInt32
  cpuWarnPercent : UInt32
  diskWarnPercent : UInt32
  maxPendingJobs : UInt32
  maxEvalTime : UInt64
deriving DecidableEq

def HealthConfig.default : HealthConfig where
  checkInterval := 30
  failureThreshold := 3
  memoryWarnPercent := 80
  cpuWarnPercent := 90
  diskWarnPercent := 85
  maxPendingJobs := 1000
  maxEvalTime := 600

structure SubnetConfig where
  netuid : UInt16
  name : String
  description : String
  version : String
  minStake : UInt64
  maxValidators : UInt32
  epochLength : UInt64
  weightInterval : UInt64
  autoUpdate : Bool
  updateCheckInterval : UInt64
  snapshotInterval : UInt64
  maxSnapshots : UInt32
  recovery : RecoveryConfig
  health : HealthConfig
deriving DecidableEq

def SubnetConfig.default (version : String) : SubnetConfig where
  netuid := 1
  name := "Mini-Chain Subnet"
  description := "P2P validator network"
  version := version
  minStake := 1000000000000
  maxValidators := 256
  epochLength := 100
  weightInterval := 1
  autoUpdate := true
  updateCheckInterval := 300
  snapshotInterval := 10
  maxSnapshots := 5
  recovery := .default
  health := .default

structure ChallengeConfig where
  id : String
  name : String
  wasmHash : String
  wasmSource : String
  emissionWeight : F64Bits
  active : Bool
  timeoutSecs : UInt64
  maxConcurrent : UInt32
deriving DecidableEq

def recoveryConfigCodec : Codec RecoveryConfig :=
  .ofEquiv
    { toFun := fun c =>
        (c.autoRecover, c.maxAttempts, c.cooldownSecs, c.rollbackOnFailure, c.pauseOnCritical, ())
      invFun := fun (a, b, c, d, e, ()) => ⟨a, b, c, d, e⟩ }
    (Fields.codec <|
      .cons "auto_recover" .bool <|
      .cons "max_attempts" .u32 <|
      .cons "cooldown_secs" .u64 <|
      .cons "rollback_on_failure" .bool <|
      .cons "pause_on_critical" .bool <|
      .nil)

@[simp] theorem roundTrips_recoveryConfig (c : RecoveryConfig) :
    recoveryConfigCodec.RoundTrips c := by
  simp [recoveryConfigCodec]

def healthConfigCodec : Codec HealthConfig :=
  .ofEquiv
    { toFun := fun c =>
        (c.checkInterval, c.failureThreshold, c.memoryWarnPercent, c.cpuWarnPercent,
          c.diskWarnPercent, c.maxPendingJobs, c.maxEvalTime, ())
      invFun := fun (a, b, c, d, e, f, g, ()) => ⟨a, b, c, d, e, f, g⟩ }
    (Fields.codec <|
      .cons "check_interval" .u64 <|
      .cons "failure_threshold" .u32 <|
      .cons "memory_warn_percent" .u32 <|
      .cons "cpu_warn_percent" .u32 <|
      .cons "disk_warn_percent" .u32 <|
      .cons "max_pending_jobs" .u32 <|
      .cons "max_eval_time" .u64 <|
      .nil)

@[simp] theorem roundTrips_healthConfig (c : HealthConfig) : healthConfigCodec.RoundTrips c := by
  simp [healthConfigCodec]

def subnetConfigCodec : Codec SubnetConfig :=
  .ofEquiv
    { toFun := fun c =>
        (c.netuid, c.name, c.description, c.version, c.minStake, c.maxValidators, c.epochLength,
          c.weightInterval, c.autoUpdate, c.updateCheckInterval, c.snapshotInterval,
          c.maxSnapshots, c.recovery, c.health, ())
      invFun := fun (a, b, c, d, e, f, g, h, i, j, k, l, m, n, ()) =>
        ⟨a, b, c, d, e, f, g, h, i, j, k, l, m, n⟩ }
    (Fields.codec <|
      .cons "netuid" .u16 <|
      .cons "name" .string <|
      .cons "description" .string <|
      .cons "version" .string <|
      .cons "min_stake" .u64 <|
      .cons "max_validators" .u32 <|
      .cons "epoch_length" .u64 <|
      .cons "weight_interval" .u64 <|
      .cons "auto_update" .bool <|
      .cons "update_check_interval" .u64 <|
      .cons "snapshot_interval" .u64 <|
      .cons "max_snapshots" .u32 <|
      .cons "recovery" recoveryConfigCodec <|
      .cons "health" healthConfigCodec <|
      .nil)

@[simp] theorem roundTrips_subnetConfig (c : SubnetConfig) : subnetConfigCodec.RoundTrips c := by
  simp [subnetConfigCodec]

inductive ConfigError where
  | invalidValue (msg : String)
deriving DecidableEq

def ConfigError.display : ConfigError → String
  | invalidValue msg => "Invalid value: " ++ msg

namespace SubnetConfig

/-- where the configuration is kept -/
def path : String := "subnet_config.json"

def load (text : JsonText) : DiskM SubnetConfig := loadJson text subnetConfigCodec path

def save (text : JsonText) (config : SubnetConfig) : DiskM Unit :=
  saveJson text subnetConfigCodec path config

def validate (config : SubnetConfig) : Except ConfigError Unit :=
  if config.epochLength = 0 then .error (.invalidValue "epoch_length must be > 0")
  else if config.maxValidators = 0 then .error (.invalidValue "max_validators must be > 0")
  else if config.weightInterval = 0 then .error (.invalidValue "weight_interval must be > 0")
  else .ok ()

end SubnetConfig

/-! ## the ban list -/

section
variable {T : Type}

def dateCodec (fmt : DateFormat T) : Codec T :=
  .through .string fmt.text fun s => (fmt.parse s).toOption

theorem roundTrips_date {fmt : DateFormat T} (hf : fmt.Lawful) (t : T) :
    (dateCodec fmt).RoundTrips t := by
  refine Codec.roundTrips_through ?_ (Codec.roundTrips_string _)
  rw [hf t]
  rfl

def banEntryCodec (fmt : DateFormat T) : Codec (BanEntry T) :=
  .ofEquiv
    { toFun := fun e => (e.reason, e.bannedAt, e.bannedBy, ())
      invFun := fun (a, b, c, ()) => ⟨a, b, c⟩ }
    (Fields.codec <|
      .cons "reason" .string <|
      .cons "banned_at" (dateCodec fmt) <|
      .cons "banned_by" .string <|
      .nil)

theorem roundTrips_banEntry {fmt : DateFormat T} (hf : fmt.Lawful) (e : BanEntry T) :
    (banEntryCodec fmt).RoundTrips e := by
  simp [banEntryCodec, roundTrips_date hf]

def banListCodec (fmt : DateFormat T) : Codec (BanList T) :=
  .ofEquiv
    { toFun := fun l => (l.bannedValidators, l.bannedHotkeys, l.bannedColdkeys, ())
      invFun := fun (a, b, c, ()) => ⟨a, b, c⟩ }
    (Fields.codec <|
      .cons "banned_validators" (.map .string (banEntryCodec fmt)) <|
      .cons "banned_hotkeys" (.map .string (banEntryCodec fmt)) <|
      .cons "banned_coldkeys" (.map .string (banEntryCodec fmt)) <|
      .nil)

theorem roundTrips_banList {fmt : DateFormat T} (hf : fmt.Lawful) (l : BanList T) :
    (banListCodec fmt).RoundTrips l := by
  simp [banListCodec, Codec.roundTrips_map KeyCodec.lawful_string, roundTrips_banEntry hf]

namespace BanList

/-- where the ban list is kept -/
def path : String := "bans.json"

def load (text : JsonText) (fmt : DateFormat T) : DiskM (BanList T) := do
  if ← existsFile path then
    loadJson text (banListCodec fmt) path
  else
    return .new

def save (text : JsonText) (fmt : DateFormat T) (bans : BanList T) : DiskM Unit :=
  saveJson text (banListCodec fmt) path bans

def unbanValidator (bans : BanList T) (hotkey : Hotkey) : Bool × BanList T :=
  (decide (hotkey.toHex ∈ bans.bannedValidators),
    { bans with bannedValidators := bans.bannedValidators.erase hotkey.toHex })

def banHotkey (now : T) (bans : BanList T) (hotkey : Hotkey) (reason bannedBy : String) :
    BanList T :=
  { bans with bannedHotkeys := bans.bannedHotkeys.insert hotkey.toHex ⟨reason, now, bannedBy⟩ }

def unbanHotkey (bans : BanList T) (hotkey : Hotkey) : Bool × BanList T :=
  (decide (hotkey.toHex ∈ bans.bannedHotkeys),
    { bans with bannedHotkeys := bans.bannedHotkeys.erase hotkey.toHex })

def banColdkey (now : T) (bans : BanList T) (coldkey reason bannedBy : String) : BanList T :=
  { bans with bannedColdkeys := bans.bannedColdkeys.insert coldkey ⟨reason, now, bannedBy⟩ }

def unbanColdkey (bans : BanList T) (coldkey : String) : Bool × BanList T :=
  (decide (coldkey ∈ bans.bannedColdkeys),
    { bans with bannedColdkeys := bans.bannedColdkeys.erase coldkey })

end BanList

end

end Platform.Subnet
