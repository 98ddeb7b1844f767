import Platform.Subnet.Recovery

/-!
# The commands of the subnet owner (`crates/subnet-manager/src/commands.rs`)

A node with all its managers, and what each command does to it.  `decode` stands for the bincode
layout of the commands, `fromString` for `ChallengeId::from_string`.  Each call has its own pattern
of file failures.  The lists of a query come in the order of the maps.
-/

namespace Platform.Subnet
open Platform.Core Lib Chain SnapshotManager

inductive SubnetCommand where
  | deployChallenge (config : ChallengeConfig) (wasmBytes : Bytes)
  | updateChallenge (challengeId : String) (config : Option ChallengeConfig)
      (wasmBytes : Option Bytes)
  | removeChallenge (challengeId : String)
  | pauseChallenge (challengeId : String)
  | resumeChallenge (challengeId : String)
  | syncValidators
  | kickValidator (hotkey : Hotkey) (reason : String)
  | banValidator (hotkey : Hotkey) (reason : String)
  | unbanValidator (hotkey : Hotkey)
  | banHotkey (hotkey : Hotkey) (reason : String)
  | banColdkey (coldkey reason : String)
  | unbanHotkey (hotkey : Hotkey)
  | unbanColdkey (coldkey : String)
  | listBanned
  | updateConfig (config : SubnetConfig)
  | setEpochLength (blocks : UInt64)
  | setMinStake (amount : UInt64)
  | createSnapshot (name reason : String)
  | rollbackToSnapshot (id : Uuid)
  | hardReset (reason : String) (preserveValidators : Bool)
  | pauseSubnet (reason : String)
  | resumeSubnet
  | triggerRecovery (action : RecoveryAction)
  | getStatus
  | getHealth
  | listChallenges
  | listValidators
  | listSnapshots

/-- what a call reads from the system, and how its file operations fail -/
structure CommandEnv (T : Type) where
  recovery : RecoveryEnv T
  snapshotId : Uuid
  databases : List (String × String)
  uptimeSecs : UInt64
  rfc3339 : T → String
  faults : List (Option Fault)

structure SubnetNode (F T : Type) extends CommandExecutor T where
  updates : UpdateManager T
  snapshots : SnapshotManager T
  recovery : RecoveryManager T
  health : HealthMonitor F T
  disk : Disk

def CommandResult.okWithData (message : String) (data : Json) : CommandResult :=
  ⟨true, message, some data⟩

def HealthStatus.debug : HealthStatus → String
  | healthy => "Healthy"
  | degraded => "Degraded"
  | unhealthy => "Unhealthy"
  | critical => "Critical"

namespace SubnetNode
variable {F T : Type}

def queue (env : CommandEnv T) (target : UpdateTarget) (payload : UpdatePayload) (version : String)
    (n : SubnetNode F T) : SubnetNode F T :=
  { n with
    updates := (n.updates.queueUpdate ⟨env.recovery.now, env.recovery.updateId⟩ target payload
      version).2 }

def setBans (text : JsonText) (fmt : DateFormat T) (bans : BanList T) (n : SubnetNode F T) :
    SubnetNode F T :=
  { n with bans := bans, disk := ignore (bans.save text fmt) n.disk }

def unban (text : JsonText) (fmt : DateFormat T) (kind key : String) (found : Bool × BanList T)
    (n : SubnetNode F T) : CommandResult × SubnetNode F T :=
  if found.1 then (.ok (kind ++ " unbanned: " ++ key), n.setBans text fmt found.2)
  else (.error (kind ++ " not in ban list: " ++ key), n)

def editConfig (text : JsonText) (edit : SubnetConfig → SubnetConfig) (d : Disk) : Disk :=
  match SubnetConfig.load text d with
  | .ok config d => ignore ((edit config).save text) d
  | .error _ d => d

def manualRecovery (C : Crypto) (fmt : DateFormat T) (env : CommandEnv T) (action : RecoveryAction)
    (n : SubnetNode F T) : RecoveryAttempt T × SubnetNode F T :=
  let (attempt, s) := executeRecovery C fmt env.recovery action ⟨n.recovery, n.updates, n.disk⟩
  (attempt, { n with recovery := s.recovery, updates := s.updates, disk := s.disk })

/-- the configuration that an update of a challenge without one gets; `1.0` as its bits -/
def defaultChallenge (challengeId hash : String) : ChallengeConfig :=
  ⟨challengeId, challengeId, hash, "", 0x3FF0000000000000, true, 600, 10⟩

def updateChallenge (C : Crypto) (fromString : String → ChallengeId) (env : CommandEnv T)
    (challengeId : String) (config : Option ChallengeConfig) (wasmBytes : Option Bytes)
    (n : SubnetNode F T) : CommandResult × SubnetNode F T :=
  if wasmBytes = none ∧ config = none then (.error "No update provided", n)
  else
    (.ok ("Challenge update queued: " ++ challengeId),
      match wasmBytes with
      | some wasm =>
        n.queue env (.challenge (fromString challengeId))
          (.wasmChallenge wasm (computeHash C wasm)
            (config.getD (defaultChallenge challengeId (computeHash C wasm)))) "update"
      | none => n)

def rollback (C : Crypto) (fmt : DateFormat T) (env : CommandEnv T) (id : Uuid)
    (n : SubnetNode F T) : CommandResult × SubnetNode F T :=
  match restoreSnapshot C fmt id n.disk with
  | .error e d => (.error ("Failed to restore snapshot: " ++ e), { n with disk := d })
  | .ok snapshot d =>
    match applySnapshot fmt env.recovery.challenges snapshot d with
    | .error e d => (.error ("Failed to apply snapshot: " ++ e), { n with disk := d })
    | .ok state d =>
      (.ok ("Rolled back to snapshot: " ++ uuidText id), { n with disk := d, state := state })

def texts (keys : List String) : Json := .arr (keys.map .str)

def status (n : SubnetNode F T) : Json :=
  .obj [("version", .str n.updates.currentVersion),
    ("block_height", .int n.state.blockHeight.toNat),
    ("epoch", .int n.state.epoch.toNat), ("validators", .int n.state.validators.size),
    ("challenges", .int n.state.challenges.size), ("paused", .bool n.recovery.paused),
    ("pending_updates", .int n.updates.pending.length)]

def banned (n : SubnetNode F T) : Json :=
  .obj [("summary", .obj [("banned_validators", .int n.bans.bannedValidators.size),
      ("banned_hotkeys", .int n.bans.bannedHotkeys.size),
      ("banned_coldkeys", .int n.bans.bannedColdkeys.size)]),
    ("validators", texts n.bans.bannedValidators.keys),
    ("hotkeys", texts n.bans.bannedHotkeys.keys),
    ("coldkeys", texts n.bans.bannedColdkeys.keys)]

def snapshotJson (rfc3339 : T → String) (m : SnapshotMeta T) : Json :=
  .obj [("id", .str (uuidText m.id)), ("name", .str m.name),
    ("block_height", .int m.blockHeight.toNat), ("epoch", .int m.epoch.toNat),
    ("created_at", .str (rfc3339 m.createdAt)), ("size_bytes", .int m.sizeBytes.toNat)]

variable [LinearOrder T]

def executeCommand (C : Crypto) (text : JsonText) (fmt : DateFormat T)
    (fromString : String → ChallengeId) (env : CommandEnv T) (n : SubnetNode F T) :
    SubnetCommand → CommandResult × SubnetNode F T
  | .deployChallenge config wasm =>
    (.ok ("Challenge deploy queued: " ++ uuidText env.recovery.updateId),
      n.queue env (.challenge (fromString config.id)) (.wasmChallenge wasm (computeHash C wasm)
        { config with wasmHash := computeHash C wasm }) config.name)
  | .updateChallenge id config wasm => n.updateChallenge C fromString env id config wasm
  | .removeChallenge id =>
    let (result, e) := n.toCommandExecutor.removeChallenge fromString id
    (result, { n with toCommandExecutor := e })
  | .pauseChallenge id => (.ok ("Challenge paused: " ++ id), n)
  | .resumeChallenge id => (.ok ("Challenge resumed: " ++ id), n)
  | .syncValidators =>
    (.ok "Validator sync triggered - will update from Bittensor metagraph", n)
  | .kickValidator hotkey _ =>
    let (result, e) := n.toCommandExecutor.kickValidator hotkey
    (result, { n with toCommandExecutor := e })
  | .banValidator hotkey reason =>
    let (result, e) := n.toCommandExecutor.banValidator env.recovery.now hotkey reason
    (result, { n with toCommandExecutor := e }.setBans text fmt e.bans)
  | .unbanValidator hotkey =>
    n.unban text fmt "Validator" hotkey.display (n.bans.unbanValidator hotkey)
  | .banHotkey hotkey reason =>
    (.ok ("Hotkey banned from all emissions: " ++ hotkey.display),
      n.setBans text fmt (n.bans.banHotkey env.recovery.now hotkey reason n.sudoKey.toHex))
  | .banColdkey coldkey reason =>
    (.ok ("Coldkey banned (all associated hotkeys): " ++ coldkey),
      n.setBans text fmt (n.bans.banColdkey env.recovery.now coldkey reason n.sudoKey.toHex))
  | .unbanHotkey hotkey => n.unban text fmt "Hotkey" hotkey.display (n.bans.unbanHotkey hotkey)
  | .unbanColdkey coldkey => n.unban text fmt "Coldkey" coldkey (n.bans.unbanColdkey coldkey)
  | .listBanned => (.okWithData "Ban list" n.banned, n)
  | .updateConfig config =>
    (.ok "Config update queued", n.queue env .config (.config config) config.version)
  | .setEpochLength blocks =>
    (.ok ("Epoch length set to " ++ blocks.toNat.repr ++ " blocks"),
      { n with disk := editConfig text (fun c => { c with epochLength := blocks }) n.disk })
  | .setMinStake amount =>
    (.ok ("Min stake set to " ++ amount.toNat.repr ++ " RAO"),
      { n with disk := editConfig text (fun c => { c with minStake := amount }) n.disk })
  | .createSnapshot name reason =>
    match createSnapshot C text fmt
        ⟨env.recovery.now, env.snapshotId, env.databases⟩ name n.state.blockHeight n.state.epoch
        n.state reason false (n.snapshots, n.disk) with
    | .ok id s =>
      (.ok ("Snapshot created: " ++ uuidText id), { n with snapshots := s.1, disk := s.2 })
    | .error e s =>
      (.error ("Failed to create snapshot: " ++ e), { n with snapshots := s.1, disk := s.2 })
  | .rollbackToSnapshot id => n.rollback C fmt env id
  | .hardReset reason preserve =>
    (.ok ("Hard reset queued: " ++ reason),
      n.queue env .allChallenges (.hardReset reason preserve none) "hard_reset")
  | .pauseSubnet reason =>
    (.ok ("Subnet paused: " ++ reason), (n.manualRecovery C fmt env .pause).2)
  | .resumeSubnet => (.ok "Subnet resumed", (n.manualRecovery C fmt env .resume).2)
  | .triggerRecovery action =>
    let (attempt, n) := n.manualRecovery C fmt env action
    (if attempt.success then .ok ("Recovery executed: " ++ attempt.details)
      else .error ("Recovery failed: " ++ attempt.details), n)
  | .getStatus => (.okWithData "Subnet status" n.status, n)
  | .getHealth =>
    (.okWithData "Health status" (.obj [("status", .str n.health.currentStatus.debug),
      ("uptime_secs", .int env.uptimeSecs.toNat),
      ("active_alerts", .int n.health.activeAlerts.length)]), n)
  | .listChallenges =>
    (.okWithData (n.state.challenges.size.repr ++ " challenges")
      (texts (n.state.challenges.keys.map uuidText)), n)
  | .listValidators =>
    (.okWithData (n.state.validators.size.repr ++ " validators")
      (.arr ((n.state.validators.pairs ValidatorInfo.stake).map fun p =>
        .obj [("hotkey", .str p.1.display), ("stake", .int p.2.toNat)])), n)
  | .listSnapshots =>
    (.okWithData (n.snapshots.snapshots.length.repr ++ " snapshots")
      (.arr (n.snapshots.snapshots.map (snapshotJson env.rfc3339))), n)

/-- the file operations of the next call fail as given -/
def withFaults (faults : List (Option Fault)) (n : SubnetNode F T) : SubnetNode F T :=
  { n with disk := { n.disk with faults := faults } }

def verifySignature (C : Crypto) (n : SubnetNode F T) (signed : SignedMessage) : Bool :=
  decide (signed.verify C = .ok true ∧ signed.signer = n.sudoKey)

def execute (C : Crypto) (text : JsonText) (fmt : DateFormat T) (fromString : String → ChallengeId)
    (decode : Bytes → Except String SubnetCommand) (env : CommandEnv T) (signed : SignedMessage)
    (n : SubnetNode F T) : CommandResult × SubnetNode F T :=
  if n.verifySignature C signed then
    match decode signed.message with
    | .error e => (.error ("Failed to deserialize command: " ++ e), n)
    | .ok cmd => (n.withFaults env.faults).executeCommand C text fmt fromString env cmd
  else (.error "Invalid signature or not authorized", n)

/-- the check for recovery of the node (`check_and_recover`) -/
def recover (C : Crypto) (fmt : DateFormat T) (cfg : HealthConfig) (env : CommandEnv T)
    (n : SubnetNode F T) : Option (RecoveryAttempt T) × SubnetNode F T :=
  let (attempt, s) := checkAndRecover C fmt cfg env.recovery n.health n.snapshots
    ⟨n.recovery, n.updates, n.disk⟩
  (attempt, { n with recovery := s.recovery, updates := s.updates, disk := s.disk })

/-! ## rollbacks -/

inductive RollbackWay where
  | command
  | trigger
  | automatic
deriving DecidableEq

def startRollback (C : Crypto) (text : JsonText) (fmt : DateFormat T)
    (fromString : String → ChallengeId) (cfg : HealthConfig) (env : CommandEnv T) (id : Uuid)
    (n : SubnetNode F T) : RollbackWay → Bool × SubnetNode F T
  | .command =>
    let (result, n) := n.executeCommand C text fmt fromString env (.rollbackToSnapshot id)
    (result.success, n)
  | .trigger =>
    let (result, n) := n.executeCommand C text fmt fromString env
      (.triggerRecovery (.rollbackToSnapshot id))
    (result.success, n)
  | .automatic =>
    let (attempt, n) := n.recover C fmt cfg env
    (attempt.any fun a => a.success && decide (a.action = .rollbackToSnapshot id), n)

end SubnetNode

/-- The file of the snapshot is what `create_snapshot` wrote for the state. -/
def Intact {T : Type} (C : Crypto) (fmt : DateFormat T) (files : Files String) (id : Uuid)
    (state : ChainState T) : Prop :=
  ∃ env config name blockHeight epoch reason auto snapshot,
    snapshot =
        snapshotOf C fmt env config name blockHeight epoch state reason auto ∧
      env.newId = id ∧
      files.lookup (snapshotPath id) = some ((Layout.snapshot fmt).ser snapshot) ∧
      ((Layout.snapshot fmt).ser snapshot).length < 2 ^ 64 ∧
      snapshot.chainState.length < 2 ^ 64

section
variable {F T : Type} {C : Crypto} {fmt : DateFormat T} {id : Uuid} {state : ChainState T}
  {d d' : Disk}

theorem restoreSnapshot_ok {snapshot : Snapshot T}
    (h : restoreSnapshot C fmt id d = .ok snapshot d') :
    ∃ txt, d.files.lookup (snapshotPath id) = some txt ∧
      (Layout.snapshot fmt).deserialize txt = .ok snapshot := by
  obtain ⟨found, m, hfn, h⟩ := of_bind_ok h
  cases hfn
  split at h
  · obtain ⟨txt, m, hr, h⟩ := of_bind_ok h
    obtain ⟨hfl, -⟩ := readFile_ok hr
    refine ⟨txt, hfl, ?_⟩
    cases hsn : (Layout.snapshot fmt).deserialize txt with
    | error e =>
      rw [hsn] at h
      cases h
    | ok snap' =>
      simp only [hsn] at h
      split at h <;> cases h
      rfl
  · cases h

theorem applySnapshot_ok {it : Iteration String} {snap : Snapshot T}
    (h : applySnapshot fmt it snap d = .ok state d') :
    (Chain.Layout.chainState fmt).deserialize snap.chainState = .ok state := by
  unfold applySnapshot at h
  cases hsa : (Chain.Layout.chainState fmt).deserialize snap.chainState with
  | error e =>
    rw [hsa] at h
    cases h
  | ok st' =>
    simp only [hsa] at h
    have hr : ∀ {d : Disk}, (createDir >>= fun _ =>
        restoreChallenges (snap.challengeData.pairsBy it) >>= fun _ =>
          pure st' : DiskM (ChainState T)) d = .ok state d' → st' = state := by
      intro d h
      obtain ⟨_, _, _, h⟩ := of_bind_ok h
      obtain ⟨_, _, _, h⟩ := of_bind_ok h
      cases h
      rfl
    congr 1
    split at h
    · obtain ⟨_, _, _, h⟩ := of_bind_ok h
      exact hr h
    · exact hr h

variable [LinearOrder T] {text : JsonText} {fromString : String → ChallengeId} {env : CommandEnv T}
  {cfg : HealthConfig} {n : SubnetNode F T}

/-- **A reported rollback happened** exactly when it was the command, or when the node was in that
state before: a rollback as a recovery drops the state it has restored. -/
theorem rollback_reported_iff (hfmt : fmt.Lawful) (hfile : Intact C fmt n.disk.files id state)
    (way : SubnetNode.RollbackWay)
    (hsuccess : (n.startRollback C text fmt fromString cfg env id way).1 = true) :
    (n.startRollback C text fmt fromString cfg env id way).2.state = state ↔
      way = .command ∨ n.state = state := by
  by_cases hwy : way = .command
  · subst hwy
    refine iff_of_true ?_ (.inl rfl)
    show (n.rollback C fmt env id).2.state = state
    replace hsuccess : (n.rollback C fmt env id).1.success = true := hsuccess
    unfold SubnetNode.rollback at hsuccess ⊢
    cases hrs : restoreSnapshot C fmt id n.disk with
    | error e d =>
      rw [hrs] at hsuccess
      cases hsuccess
    | ok snap m =>
      rw [hrs] at hsuccess
      cases ha : applySnapshot fmt env.recovery.challenges snap m with
      | error e d =>
        simp only [ha] at hsuccess
        cases hsuccess
      | ok st' d =>
        simp only [ha]
        obtain ⟨env, config, name, blockHeight, epoch, reason, auto, _, rfl, -, hlk, hsz,
          hsa⟩ := hfile
        obtain ⟨txt, hcn, hr⟩ := restoreSnapshot_ok hrs
        rw [hlk] at hcn
        cases hcn
        rw [(Layout.lawful_snapshot hfmt).deserialize hsz] at hr
        cases hr
        exact Except.ok.inj ((applySnapshot_ok ha).symm.trans
          ((Chain.Layout.lawful_chainState hfmt).deserialize hsa))
  · have hsa : (n.startRollback C text fmt fromString cfg env id way).2.state = n.state := by
      cases way with
      | command => exact absurd rfl hwy
      | trigger | automatic => rfl
    rw [hsa]
    exact (or_iff_right hwy).symm

/-! ## confirmations -/

def Confirmed (r : CommandResult × SubnetNode F T) (P : SubnetNode F T → Prop) : Prop :=
  r.1.success = true → P r.2

/-- The node, started again, loads a configuration with the property. -/
def ReloadsConfig (text : JsonText) (P : SubnetConfig → Prop) (n : SubnetNode F T) : Prop :=
  ∃ config d, SubnetConfig.load text ⟨n.disk.files, []⟩ = .ok config d ∧ P config

def ReloadsBans (text : JsonText) (fmt : DateFormat T) (P : BanList T → Prop) (n : SubnetNode F T) :
    Prop :=
  ∃ bans d, BanList.load text fmt ⟨n.disk.files, []⟩ = .ok bans d ∧ P bans

/-- An edit of the configuration lasts: it was loaded, and saved without a failure, or what is in
the file has the property anyway. -/
def EditLasts (text : JsonText) (edit : SubnetConfig → SubnetConfig) (P : SubnetConfig → Prop)
    (d : Disk) : Prop :=
  match SubnetConfig.load text d with
  | .ok config d' =>
    d'.nextFault = none ∨ Holds text subnetConfigCodec P
      ((leftBy (jsonBytes text subnetConfigCodec (edit config)) d'.nextFault).or
        (d.files.lookup SubnetConfig.path))
  | .error _ _ => Holds text subnetConfigCodec P (d.files.lookup SubnetConfig.path)

def SaveLasts (text : JsonText) (fmt : DateFormat T) (bans : BanList T) (P : BanList T → Prop)
    (d : Disk) : Prop :=
  d.nextFault = none ∨ Holds text (banListCodec fmt) P
    ((leftBy (jsonBytes text (banListCodec fmt) bans) d.nextFault).or (d.files.lookup BanList.path))

def Carries (target : UpdateTarget) (config : Option ChallengeConfig) (wasm : Option Bytes)
    (u : Update T) : Prop :=
  u.target = target ∧ ∃ wasm' hash config', u.payload = .wasmChallenge wasm' hash config' ∧
    (∀ w ∈ wasm, wasm' = w) ∧ ∀ c ∈ config, config' = c

omit [LinearOrder T] in
theorem reloadsConfig_edit_iff (ht : text.Lawful) {edit : SubnetConfig → SubnetConfig}
    {P : SubnetConfig → Prop} (hed : ∀ cfg, P (edit cfg)) :
    ReloadsConfig text P { n with disk := SubnetNode.editConfig text edit n.disk } ↔
      EditLasts text edit P n.disk := by
  refine loads_iff_holds.trans ?_
  unfold EditLasts SubnetNode.editConfig
  cases hld : SubnetConfig.load text n.disk with
  | error e d =>
    show Holds text _ P (d.files.lookup _) ↔ _
    rw [loadJson_error hld]
  | ok cfg d =>
    refine (holds_written_iff ht (roundTrips_subnetConfig _) (hed cfg)).trans ?_
    rw [(loadJson_ok hld).1]

omit [LinearOrder T] in
theorem reloadsBans_setBans_iff (ht : text.Lawful) (hf : fmt.Lawful) {P : BanList T → Prop}
    {bans : BanList T} (hbn : P bans) (hn : ¬ P .new) :
    ReloadsBans text fmt P (n.setBans text fmt bans) ↔ SaveLasts text fmt bans P n.disk := by
  have hld : ∀ fs : Files String,
      (∃ bans d, BanList.load text fmt ⟨fs, []⟩ = .ok bans d ∧ P bans) ↔
        Holds text (banListCodec fmt) P (fs.lookup BanList.path) := by
    intro fs
    cases hfl : fs.lookup BanList.path with
    | none =>
      have hld : BanList.load text fmt ⟨fs, []⟩ = .ok BanList.new ⟨fs, []⟩ := by
        refine (bind_of_ok (existsFile_quiet fs _)).trans ?_
        rw [if_neg (by simp [AList.lookup_eq_none.mp hfl])]
        rfl
      refine iff_of_false ?_ ?_
      · rintro ⟨bans, d, h, hP⟩
        cases hld.symm.trans h
        exact hn hP
      · rintro ⟨bytes, x, h, -⟩
        cases h
    | some txt =>
      have hld : BanList.load text fmt ⟨fs, []⟩ =
          loadJson text (banListCodec fmt) BanList.path ⟨fs, []⟩ := by
        refine (bind_of_ok (existsFile_quiet fs _)).trans ?_
        rw [if_pos (by simp [HashMap.mem_of_lookup hfl])]
      rw [hld, ← hfl]
      exact loads_iff_holds
  exact (hld _).trans (holds_written_iff ht (roundTrips_banList hf bans) hbn)

/-- **A confirmed command took effect and survives a restart** exactly when what it edits was read
and written without a failure, or the file has the value anyway; and an update of a challenge only
when it has code, or such an update was waiting already. -/
theorem confirmed_iff (htext : text.Lawful) (hfmt : fmt.Lawful) (n : SubnetNode F T)
    (env : CommandEnv T) (blocks amount : UInt64) (hotkey : Hotkey) (reason challengeId : String)
    (config : Option ChallengeConfig) (wasm : Option Bytes) :
    (Confirmed (n.executeCommand C text fmt fromString env (.setEpochLength blocks))
        (ReloadsConfig text fun c => c.epochLength = blocks) ↔
      EditLasts text (fun c => { c with epochLength := blocks }) (fun c => c.epochLength = blocks)
        n.disk) ∧
    (Confirmed (n.executeCommand C text fmt fromString env (.setMinStake amount))
        (ReloadsConfig text fun c => c.minStake = amount) ↔
      EditLasts text (fun c => { c with minStake := amount }) (fun c => c.minStake = amount)
        n.disk) ∧
    (Confirmed (n.executeCommand C text fmt fromString env (.banValidator hotkey reason))
        (ReloadsBans text fmt fun l => hotkey.toHex ∈ l.bannedValidators) ↔
      SaveLasts text fmt (n.bans.banValidator env.recovery.now hotkey reason n.sudoKey.toHex)
        (fun l => hotkey.toHex ∈ l.bannedValidators) n.disk) ∧
    (Confirmed (n.executeCommand C text fmt fromString env (.banHotkey hotkey reason))
        (ReloadsBans text fmt fun l => hotkey.toHex ∈ l.bannedHotkeys) ↔
      SaveLasts text fmt (n.bans.banHotkey env.recovery.now hotkey reason n.sudoKey.toHex)
        (fun l => hotkey.toHex ∈ l.bannedHotkeys) n.disk) ∧
    (Confirmed (n.executeCommand C text fmt fromString env
        (.updateChallenge challengeId config wasm)) (fun n =>
          ∃ u ∈ n.updates.pending, Carries (.challenge (fromString challengeId)) config wasm u) ↔
      wasm.isSome ∨ config = none ∨
        ∃ u ∈ n.updates.pending, Carries (.challenge (fromString challengeId)) config wasm u) := by
  refine ⟨?_, ?_, ?_, ?_, ?_⟩
  · exact (forall_prop_of_true rfl).trans (reloadsConfig_edit_iff htext fun _ => rfl)
  · exact (forall_prop_of_true rfl).trans (reloadsConfig_edit_iff htext fun _ => rfl)
  · refine (forall_prop_of_true rfl).trans (reloadsBans_setBans_iff htext hfmt
      ?_ (AList.notMem_empty _))
    exact AList.mem_insert _ |>.mpr (.inl rfl)
  · refine (forall_prop_of_true rfl).trans (reloadsBans_setBans_iff htext hfmt
      ?_ (AList.notMem_empty _))
    exact AList.mem_insert _ |>.mpr (.inl rfl)
  · show Confirmed (n.updateChallenge C fromString env challengeId config wasm) _ ↔ _
    unfold Confirmed SubnetNode.updateChallenge
    cases wasm with
    | some w =>
      rw [if_neg (by simp)]
      refine iff_of_true
        (fun _ => ⟨_, List.mem_append_right _ List.mem_cons_self, rfl, ?_⟩) (.inl rfl)
      refine ⟨w, _, _, rfl, fun _ h => Option.some.inj h, ?_⟩
      rintro c rfl
      rfl
    | none =>
      cases config with
      | none =>
        rw [if_pos ⟨rfl, rfl⟩]
        exact iff_of_true (fun h => absurd h Bool.false_ne_true) (.inr (.inl rfl))
      | some c =>
        rw [if_neg (by simp)]
        simp [CommandResult.ok]

end

/-! ## a node with one snapshot -/

def sampleNode (files : Files String) : SubnetNode Nat (Fin 2) where
  sudoKey := .ofByte 7
  state := sampleState 7 0
  bans := .new
  updates := .new
  snapshots := ⟨5, [entryOf sampleDates firstSnapshot]⟩
  recovery := ⟨.default, [], 0, none, false⟩
  health := .new
  disk := ⟨files, []⟩

def sampleEnv : CommandEnv (Fin 2) :=
  ⟨⟨sampleTime, 0, uuidOfByte 3, uuidOfByte 4, .asListed, .asListed⟩, uuidOfByte 2, [], 0,
    fun _ => "", []⟩

def noChallenge (_ : String) : ChallengeId := ⟨List.replicate 16 0, List.length_replicate⟩

def snapshotNode : SubnetNode Nat (Fin 2) :=
  sampleNode (HashMap.collect [(snapshotPath (uuidOfByte 1),
    (Layout.snapshot sampleDates).ser firstSnapshot)])

theorem intact_first : Intact sampleCrypto sampleDates snapshotNode.disk.files (uuidOfByte 1)
    (sampleState 50 2) :=
  ⟨firstEnv, [], "first", 50, 2, "manual", false, firstSnapshot, rfl, rfl, by decide +kernel,
    by decide +kernel, by decide +kernel⟩

def rolledBack (way : SubnetNode.RollbackWay) : Bool × SubnetNode Nat (Fin 2) :=
  snapshotNode.startRollback sampleCrypto noText sampleDates noChallenge twoChecks sampleEnv
    (uuidOfByte 1) way

theorem rolled_back_by_command : (rolledBack .command).2.state = sampleState 50 2 := by
  have hsc : (rolledBack .command).1 = true := by decide +kernel
  unfold rolledBack at hsc ⊢
  exact (rollback_reported_iff sampleDates_lawful intact_first .command hsc).mpr (.inl rfl)

/-- The recovery reports a rollback, and the node goes on in the state that it was in. -/
theorem reported_without_rollback :
    (rolledBack .trigger).1 = true ∧ (rolledBack .trigger).2.state.blockHeight = 7 ∧
      (sampleState 50 2).blockHeight = 50 :=
  ⟨by decide +kernel, by decide +kernel, rfl⟩

theorem ban_reloaded : ∃ text : JsonText, text.Lawful ∧
    Confirmed ((sampleNode ∅).executeCommand sampleCrypto text sampleDates noChallenge sampleEnv
      (.banHotkey (.ofByte 1) "spam"))
      (ReloadsBans text sampleDates fun l => (Hotkey.ofByte 1).toHex ∈ l.bannedHotkeys) := by
  obtain ⟨text, ht⟩ := JsonText.exists_lawful
  refine ⟨text, ht, (confirmed_iff ht sampleDates_lawful (sampleNode ∅) sampleEnv 0 0
    (.ofByte 1) "spam" "" none none).2.2.2.1.mpr (.inl rfl)⟩

def confirmedBy (cmd : SubnetCommand) : CommandResult × SubnetNode Nat (Fin 2) :=
  (sampleNode ∅).executeCommand sampleCrypto noText sampleDates noChallenge sampleEnv cmd

/-- Without a configuration the epoch length is set nowhere, and an update without code is lost. -/
theorem confirmed_without_effect :
    (confirmedBy (.setEpochLength 10)).1.success = true ∧
      (confirmedBy (.setEpochLength 10)).2.disk.files.lookup SubnetConfig.path = none ∧
      (confirmedBy (.updateChallenge "c" (some (SubnetNode.defaultChallenge "c" ""))
        none)).1.success = true ∧
      (confirmedBy (.updateChallenge "c" (some (SubnetNode.defaultChallenge "c" ""))
        none)).2.updates.pending.length = 0 := by
  decide +kernel

end Platform.Subnet
