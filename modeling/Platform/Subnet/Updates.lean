import Platform.Lib.Paths
import Platform.Subnet.Snapshots

/-!
# Updates (`crates/subnet-manager/src/update.rs`)

Updates wait in a queue.  Each one is applied in turn; when that fails and there is data to roll
back to, the data is written back.  The old code of a challenge is not read, so what is written back
for it is empty, and it is written under the id of the target while the new code went under the id
in the configuration.

* A path under `challenges` is resolved name by name from the data directory (`codePath`): the id of
  a configuration is any text and may lead out of the directory.
* The clock is read for each update that was applied, so it is an argument by the update's id.
-/

namespace Platform.Subnet
open Platform.Core Lib Chain SubnetConfig

inductive UpdateType where
  | hot
  | warm
  | cold
  | hardReset
deriving DecidableEq

inductive UpdateStatus where
  | pending
  | downloading
  | validating
  | applying
  | applied
  | failed (message : String)
  | rolledBack
deriving DecidableEq

inductive UpdateTarget where
  | challenge (id : ChallengeId)
  | config
  | allChallenges
  | validators

inductive UpdatePayload where
  | wasmChallenge (wasmBytes : Bytes) (wasmHash : String) (config : ChallengeConfig)
  | config (config : SubnetConfig)
  | validators (add remove : List Hotkey)
  | hardReset (reason : String) (preserveValidators : Bool) (newConfig : Option SubnetConfig)

structure Update (T : Type) where
  id : Uuid
  updateType : UpdateType
  version : String
  target : UpdateTarget
  payload : UpdatePayload
  status : UpdateStatus
  createdAt : T
  appliedAt : Option T
  rollbackData : Option Bytes

structure UpdateManager (T : Type) where
  pending : List (Update T)
  history : List (Update T)
  currentVersion : String
  updating : Bool

/-- the errors that are made; `Serialization` never is -/
inductive UpdateError where
  | alreadyUpdating
  | hashMismatch (expected actual : String)
  | validation (msg : String)
  | noRollbackData
  | io (msg : String)
deriving DecidableEq

def UpdateError.display : UpdateError → String
  | alreadyUpdating => "Update already in progress"
  | hashMismatch expected actual => "Hash mismatch: expected " ++ expected ++ ", got " ++ actual
  | validation msg => "Validation error: " ++ msg
  | noRollbackData => "No rollback data available"
  | io msg => "IO error: " ++ msg

/-! ## the queue -/

/-- what is drawn for a new update -/
structure QueueEnv (T : Type) where
  now : T
  newId : Uuid

def UpdatePayload.updateType : UpdatePayload → UpdateType
  | wasmChallenge _ _ _ => .hot
  | config _ => .warm
  | validators _ _ => .hot
  | hardReset _ _ _ => .hardReset

namespace UpdateManager
variable {T : Type}

def new : UpdateManager T := ⟨[], [], "0.1.0", false⟩

def queueUpdate (env : QueueEnv T) (target : UpdateTarget) (payload : UpdatePayload)
    (version : String) (m : UpdateManager T) : Uuid × UpdateManager T :=
  (env.newId,
    { m with pending := m.pending ++
      [⟨env.newId, payload.updateType, version, target, payload, .pending, env.now, none, none⟩] })

end UpdateManager

/-! ## one update -/

def codePath (dataDir : List (List Char)) (id : String) : Option String :=
  let names := resolveFrom (dataDir ++ ["challenges".toList]) id.toList ++ ["code.wasm".toList]
  if dataDir <+: names then some (.ofList (['/'].intercalate (names.drop dataDir.length))) else none

/-- `fs::write`, under the data directory or elsewhere -/
def writeAt (path : Option String) (content : Bytes) : DiskM Unit := fun d =>
  d.finish (match path with
    | some path => d.files.written path content d.nextFault
    | none => d.files) ()

/-- The path is in this directory of the data directory. -/
def isInside (dir path : String) : Bool := (dir ++ "/").toList.isPrefixOf path.toList

section
variable {T : Type}

/-- an update while it is applied, with the version and the files it may change -/
structure Applying (T : Type) where
  update : Update T
  currentVersion : String
  disk : Disk

abbrev UpdateM (T α : Type) := EStateM UpdateError (Applying T) α

def onFiles {α : Type} (x : DiskM α) : UpdateM T α := fun s =>
  match x s.disk with
  | .ok a d => .ok a { s with disk := d }
  | .error e d => .error (.io e) { s with disk := d }

def setRollbackData (data : Bytes) : UpdateM T Unit :=
  modify fun s => { s with update := { s.update with rollbackData := some data } }

variable (C : Crypto) (text : JsonText) (dataDir : List (List Char)) (clock : Uuid → T)

def storeCode (wasmBytes : Bytes) (config : ChallengeConfig) :
    DiskM Unit := do
  createDir
  writeAt (codePath dataDir config.id) wasmBytes

def applyWasm (wasmBytes : Bytes) (wasmHash : String) (config : ChallengeConfig) : UpdateM T Unit :=
  if computeHash C wasmBytes ≠ wasmHash then
    throw (.hashMismatch wasmHash (computeHash C wasmBytes))
  else do
    -- the old code is not read
    setRollbackData []
    onFiles (storeCode dataDir wasmBytes config)

/-- the configuration that is there -/
def oldConfig : DiskM (Option Bytes) := do
  if ← existsFile path then
    let content ← readFile path
    return some content
  else
    return none

def applyConfig (newConfig : SubnetConfig) : UpdateM T Unit :=
  match newConfig.validate with
  | .error e => throw (.validation e.display)
  | .ok () => do
    let old ← onFiles oldConfig
    modify fun s => { s with update :=
      { s.update with rollbackData := old.or s.update.rollbackData } }
    onFiles (newConfig.save text)
    modify fun s => { s with currentVersion := newConfig.version }

def removeDirIfExists (dir : String) : DiskM Unit := do
  if ← existsDir (isInside dir) then
    removeDir (isInside dir)

def applyHardReset (preserveValidators : Bool) (newConfig : Option SubnetConfig) :
    DiskM Unit := do
  createDir
  if preserveValidators then return () else removeDirIfExists "validators"
  removeDirIfExists "challenges"
  createDir
  match newConfig with
  | some config => config.save text
  | none => return ()

def applyPayload :
    UpdatePayload → UpdateM T Unit
  | .wasmChallenge wasmBytes wasmHash config => applyWasm C dataDir wasmBytes wasmHash config
  | .config newConfig => applyConfig text newConfig
  -- validators are handled by the runtime
  | .validators _ _ => return ()
  | .hardReset _ preserveValidators newConfig =>
    onFiles (applyHardReset text preserveValidators newConfig)

def Applying.setStatus (status : UpdateStatus) (s : Applying T) : Applying T :=
  { s with update := { s.update with status := status } }

def applyUpdate : UpdateM T Unit := do
  modify (Applying.setStatus .applying)
  let s ← get
  applyPayload C text dataDir s.update.payload

def writeBack (data : Bytes) : UpdateTarget → DiskM Unit
  | .challenge id => writeAt (codePath dataDir (uuidText id)) data
  | .config => writeFile path data
  | _ => return ()

def rollbackUpdate : UpdateM T Unit := do
  let s ← get
  match s.update.rollbackData with
  | none => throw .noRollbackData
  | some data => onFiles (writeBack dataDir data s.update.target)

def tryRollback (s : Applying T) : Applying T :=
  if s.update.rollbackData.isSome then
    match rollbackUpdate dataDir s with
    | .ok () s => s.setStatus .rolledBack
    | .error _ s => s
  else s

/-- the body of the loop of `process_updates` -/
def processUpdate (s : Applying T) : Applying T :=
  match applyUpdate C text dataDir s with
  | .ok () s =>
    { s with update := { s.update with status := .applied, appliedAt := some (clock s.update.id) } }
  | .error e s => tryRollback dataDir (s.setStatus (.failed e.display))

def processNext (s : String × Disk) (update : Update T) : Update T × (String × Disk) :=
  let s := processUpdate C text dataDir clock ⟨update, s.1, s.2⟩
  (s.update, (s.currentVersion, s.disk))

abbrev UpdateCall (T : Type) := Call (String × Disk) (Update T) (Update T)

/-- the loop of `process_updates` -/
def processed (m : UpdateManager T) (disk : Disk) : List (UpdateCall T) × (String × Disk) :=
  trace (processNext C text dataDir clock) (m.currentVersion, disk) m.pending

def UpdateManager.processUpdates (m : UpdateManager T) (disk : Disk) :
    Except UpdateError (List Uuid) × UpdateManager T × Disk :=
  if m.updating then (.error .alreadyUpdating, m, disk)
  else
    let (calls, version, disk') := processed C text dataDir clock m disk
    let recorded := calls.map Call.out
    (.ok ((recorded.filter fun u => decide (u.status = .applied)).map Update.id),
      { m with
        pending := []
        history := m.history ++ recorded
        currentVersion := version
        updating := false },
      disk')

end

/-! ## what a rolled back update leaves -/

theorem notMem_uuidText {c : Char} (hds : c ≠ '-') (hc : ∀ n < 16, hexDigit n ≠ c) (u : Uuid) :
    c ∉ (uuidText u).toList := by
  unfold uuidText State.ChallengeId.toText
  simp [List.intercalate, List.intersperse, State.uuidGroups, hds, State.notMem_hexChars hc]

def codeFile (id : ChallengeId) : String := "challenges/" ++ uuidText id ++ "/code.wasm"

theorem codePath_uuidText (dataDir : List (List Char)) (u : Uuid) :
    codePath dataDir (uuidText u) = some (codeFile u) := by
  have hne : (uuidText u).toList ≠ [] := by
    intro h
    have hr := parseUuid_uuidText u
    rw [String.toList_eq_nil_iff.mp h] at hr
    cases hr
  have hsl : '/' ∉ (uuidText u).toList := notMem_uuidText (by decide) (by decide) u
  have hdt : '.' ∉ (uuidText u).toList := notMem_uuidText (by decide) (by decide) u
  unfold codePath
  rw [resolveFrom_name _ ⟨hne, hsl⟩ hdt, List.append_assoc, List.append_assoc,
    if_pos (List.prefix_append _ _)]
  rw [Option.some_inj, ← String.toList_inj]
  simp [List.intercalate, List.intersperse, codeFile]

section
variable {T : Type} {C : Crypto} {text : JsonText} {dataDir : List (List Char)} {clock : Uuid → T}
  {update : Update T} {ver : String} {d : Disk}

def codeLeft (dataDir : List (List Char)) (wasmBytes : Bytes) (config : ChallengeConfig)
    (d : Disk) : Files String :=
  match d.nextFault, codePath dataDir config.id with
  | none, some path => d.files.written path wasmBytes (d.leaving d.files).nextFault
  | _, _ => d.files

def UpdateTarget.rollbackPath : UpdateTarget → Option String
  | challenge id => some (codeFile id)
  | config => some path
  | _ => none

variable {s s' : Applying T} {e : UpdateError}

theorem tryRollback_files {path : String} (hss : s.update.status ≠ .rolledBack)
    (hpt : s.update.target.rollbackPath = some path)
    (hbk : (tryRollback dataDir s).update.status = .rolledBack) :
    ∃ data, s.update.rollbackData = some data ∧
      (tryRollback dataDir s).disk.files = s.disk.files.insert path data := by
  unfold tryRollback at hbk ⊢
  cases hdt : s.update.rollbackData with
  | none =>
    rw [hdt] at hbk
    exact absurd hbk hss
  | some data =>
    have hwr : rollbackUpdate dataDir s = onFiles (writeFile path data) s := by
      have htr : writeBack dataDir data s.update.target = writeFile path data := by
        cases htr : s.update.target with
        | challenge id =>
          rw [htr] at hpt
          cases hpt
          rw [writeBack, codePath_uuidText]
          rfl
        | config =>
          rw [htr] at hpt
          cases hpt
          rfl
        | allChallenges | validators => simp [htr, UpdateTarget.rollbackPath] at hpt
      rw [← htr, show rollbackUpdate dataDir s = (match s.update.rollbackData with
        | none => (throw UpdateError.noRollbackData : UpdateM T Unit)
        | some data => onFiles (writeBack dataDir data s.update.target)) s from rfl, hdt]
    rw [hdt, hwr, onFiles] at hbk
    rw [hwr, onFiles]
    refine ⟨data, rfl, ?_⟩
    cases hrs : writeFile path data s.disk with
    | ok a d' =>
      obtain ⟨hn, rfl⟩ := finish_ok hrs
      rw [hn]
      rfl
    | error e d' =>
      rw [hrs] at hbk
      exact absurd hbk hss

theorem onFiles_error {α : Type} {x : DiskM α}
    (h : onFiles x s = .error e s') : ∃ e' d', x s.disk = .error e' d' ∧ s' =
    { s with disk := d' } := by
  unfold onFiles at h
  cases hx : x s.disk with
  | ok a d' =>
    rw [hx] at h
    cases h
  | error e' d' =>
    rw [hx] at h
    cases h
    exact ⟨e', d', rfl, rfl⟩

theorem onFiles_ok {α : Type} {x : DiskM α} {a : α}
    (h : onFiles x s = .ok a s') : ∃ d', x s.disk = .ok a d' ∧ s' = { s with disk := d' } := by
  unfold onFiles at h
  cases hx : x s.disk with
  | ok a d' =>
    rw [hx] at h
    cases h
    exact ⟨d', rfl, rfl⟩
  | error e' d' =>
    rw [hx] at h
    cases h

theorem applyWasm_error {wb : Bytes} {wasmHash : String} {cfg : ChallengeConfig}
    (h : applyWasm C dataDir wb wasmHash cfg s = .error e s') :
    s' = s ∨ s'.update = { s.update with rollbackData := some [] } ∧
      s'.disk.files = codeLeft dataDir wb cfg s.disk := by
  unfold applyWasm at h
  split at h
  · cases h
    exact .inl rfl
  · obtain ⟨e', d', hd, rfl⟩ := onFiles_error h
    refine .inr ⟨rfl, ?_⟩
    rcases of_bind_error hd with hd | ⟨_, d₁, hok, hd⟩
    · obtain ⟨hfl, rfl⟩ := finish_error hd
      unfold codeLeft
      split
      · next hn _ => exact absurd hn hfl
      · rfl
    · obtain ⟨hn, rfl⟩ := finish_ok hok
      obtain ⟨-, rfl⟩ := finish_error hd
      unfold codeLeft
      rw [show s.disk.nextFault = none from hn]
      cases codePath dataDir cfg.id with
      | none => rfl
      | some path => rfl

theorem oldConfig_ok {d' : Disk} {old : Option Bytes} (h : oldConfig d = .ok old d') :
    d'.files = d.files ∧ ∀ content, old = some content → d.files.lookup path = some content := by
  have hex : existsFile path d = .ok (d.nextFault.isNone &&
    decide (path ∈ d.files)) (d.leaving d.files) := rfl
  unfold oldConfig at h
  rw [bind_of_ok hex] at h
  split at h
  · cases hr : readFile path (d.leaving d.files) with
    | error e m =>
      rw [bind_of_error hr] at h
      cases h
    | ok content m =>
      rw [bind_of_ok hr] at h
      cases h
      obtain ⟨hfi, hfl⟩ := readFile_ok hr
      exact ⟨hfl, fun c hc => hc ▸ hfi⟩
  · cases h
    exact ⟨rfl, nofun⟩

theorem applyConfig_error {nc : SubnetConfig}
    (h : applyConfig text nc s = .error e s') (hn : s.update.rollbackData = none) :
    s'.update.target = s.update.target ∧ ∀ data, s'.update.rollbackData = some data →
      s.disk.files.lookup path = some data ∧ ∃ fault, s'.disk.files =
        s.disk.files.written path (jsonBytes text subnetConfigCodec nc) fault := by
  unfold applyConfig at h
  cases hv : nc.validate with
  | error e' =>
    rw [hv] at h
    cases h
    exact ⟨rfl, fun data hdt => absurd (hn.symm.trans hdt) nofun⟩
  | ok u =>
    rw [hv] at h
    rcases of_bind_error h with h | ⟨old, m, ho, h⟩
    · obtain ⟨e', d', -, rfl⟩ := onFiles_error h
      exact ⟨rfl, fun data hdt => absurd (hn.symm.trans hdt) nofun⟩
    · obtain ⟨d', hd', rfl⟩ := onFiles_ok ho
      obtain ⟨hfl, hk⟩ := oldConfig_ok hd'
      rcases of_bind_error h with h | ⟨_, m, hm, h⟩
      · cases h
      cases hm
      rcases of_bind_error h with h | ⟨_, m, -, h⟩
      · obtain ⟨e', d'', hsv, rfl⟩ := onFiles_error h
        obtain ⟨-, rfl⟩ := finish_error hsv
        refine ⟨rfl, fun data hdt => ⟨?_, _, congrArg (fun f => Files.written f _ _ _) hfl⟩⟩
        refine hk data ?_
        simpa [hn] using hdt
      · cases h

/-! ## no trace -/

def Update.Queued (u : Update T) : Prop :=
  u.rollbackData = none ∧
    ((∃ wasmBytes wasmHash config id, u.payload = .wasmChallenge wasmBytes wasmHash config ∧
        u.target = .challenge id) ∨
      ∃ config, u.payload = .config config ∧ u.target = .config)

/-- **When a rolled back update leaves no trace**: the code of a challenge was empty before, and the
failed write has changed no other file. -/
def NoTrace (dataDir : List (List Char)) (d : Disk) (u : Update T) : Prop :=
  match u.payload, u.target with
  | .wasmChallenge wasmBytes _ config, .challenge id =>
    d.files.lookup (codeFile id) = some [] ∧ ∀ path, path ≠ codeFile id →
      (codeLeft dataDir wasmBytes config d).lookup path = d.files.lookup path
  | _, _ => True

theorem failed_of_rolledBack
    (hbk : (processUpdate C text dataDir clock s).update.status = .rolledBack) :
    ∃ e s', applyUpdate C text dataDir s = .error e s' ∧
      processUpdate C text dataDir clock s =
        tryRollback dataDir (s'.setStatus (.failed e.display)) := by
  unfold processUpdate at hbk ⊢
  cases ha : applyUpdate C text dataDir s with
  | ok a s' =>
    rw [ha] at hbk
    cases hbk
  | error e s' => exact ⟨e, s', rfl, rfl⟩

theorem files_insert_iff {fs left : Files String} {path : String} {txt : Bytes} :
    (∀ p, (left.insert path txt).lookup p = fs.lookup p) ↔
      fs.lookup path = some txt ∧ ∀ p, p ≠ path → left.lookup p = fs.lookup p := by
  constructor
  · intro h
    refine ⟨(h path).symm.trans (AList.lookup_insert _), fun p hp => ?_⟩
    rw [← h p, AList.lookup_insert_ne hp]
  · rintro ⟨hsl, hoh⟩ p
    by_cases hp : p = path
    · rw [hp, AList.lookup_insert, hsl]
    · rw [AList.lookup_insert_ne hp, hoh p hp]

theorem process_iff (hqd : update.Queued)
    (hbk : (processNext C text dataDir clock (ver, d) update).1.status = .rolledBack) :
    (∀ path, (processNext C text dataDir clock (ver, d) update).2.2.files.lookup path =
      d.files.lookup path) ↔ NoTrace dataDir d update := by
  obtain ⟨hn, hk⟩ := hqd
  obtain ⟨e, s', ha, hpr⟩ := failed_of_rolledBack hbk
  have hfl : (s'.setStatus (.failed e.display)).update.status ≠ .rolledBack :=
    UpdateStatus.noConfusion
  rw [show applyUpdate C text dataDir ⟨update, ver, d⟩ = applyPayload C text dataDir
    update.payload ⟨{ update with status := .applying }, ver, d⟩ from rfl] at ha
  simp only [processNext, hpr] at hbk ⊢
  unfold NoTrace
  rcases hk with ⟨wasmBytes, wasmHash, config, id, hpy, htr⟩ | ⟨config, hpy, htr⟩
  · rw [hpy] at ha ⊢
    rw [htr]
    rcases applyWasm_error ha with rfl | ⟨hu, hlf⟩
    · obtain ⟨data, hdt, -⟩ := tryRollback_files hfl (congrArg UpdateTarget.rollbackPath htr) hbk
      cases hn.symm.trans hdt
    · have hpt : s'.update.target.rollbackPath = some (codeFile id) := by
        rw [hu]
        exact congrArg UpdateTarget.rollbackPath htr
      obtain ⟨data, hdt, hwr⟩ := tryRollback_files hfl hpt hbk
      cases (congrArg Update.rollbackData hu).symm.trans hdt
      rw [hwr.trans (congrArg (AList.insert (codeFile id) []) hlf)]
      exact files_insert_iff
  · rw [hpy] at ha ⊢
    obtain ⟨htr', hkp⟩ := applyConfig_error ha hn
    obtain ⟨data, hdt, hwr⟩ := tryRollback_files hfl
      (congrArg UpdateTarget.rollbackPath (htr'.trans htr)) hbk
    obtain ⟨ho, fault, hlf⟩ := hkp data hdt
    refine iff_of_true ?_ trivial
    rw [hwr.trans (congrArg (AList.insert path data) hlf), files_insert_iff]
    exact ⟨ho, fun p hp => lookup_written_ne fault hp⟩

/-- **A rolled back update leaves no trace** exactly when it changed the configuration, or the code
of its challenge was empty before and the failed write has changed no other file. -/
theorem rolled_back_iff (m : UpdateManager T) (disk : Disk) (hidle : m.updating = false)
    (hqueued : ∀ u ∈ m.pending, u.Queued) :
    (m.processUpdates C text dataDir clock disk).2.1.history =
        m.history ++ (processed C text dataDir clock m disk).1.map Call.out ∧
      ∀ call ∈ (processed C text dataDir clock m disk).1, call.out.status = .rolledBack →
        ((∀ path, call.after.2.files.lookup path = call.before.2.files.lookup path) ↔
          NoTrace dataDir call.before.2 call.input) := by
  constructor
  · unfold UpdateManager.processUpdates
    rw [hidle]
    rfl
  · intro call hcl hbk
    obtain ⟨_, _, _, _, _, _, ⟨rfl, rfl, hstep⟩, _⟩ := Run.mem_split
      (machineRun_trace (processNext C text dataDir clock) (m.currentVersion, disk) m.pending) hcl
    have hip : call.input ∈ m.pending := by
      rw [← map_input_trace (processNext C text dataDir clock) (m.currentVersion, disk) m.pending]
      exact List.mem_map_of_mem hcl
    have hss : (processNext C text dataDir clock (call.before.1, call.before.2)
        call.input).1.status = .rolledBack := by
      rw [hstep]
      exact hbk
    have hif := process_iff (hqueued call.input hip) hss
    rw [hstep] at hif
    exact hif

end

/-! ## two failed updates -/

def sampleDir : List (List Char) := ["data".toList]

def noText : JsonText := ⟨fun _ => [], fun _ => .error "EOF while parsing a value", fun _ => ""⟩

def sampleQueue (target : UpdateTarget) (payload : UpdatePayload) : UpdateManager Nat :=
  (UpdateManager.new.queueUpdate ⟨0, uuidOfByte 9⟩ target payload "v").2

def sampleProcess (m : UpdateManager Nat) (disk : Disk) :=
  processed sampleCrypto noText sampleDir (fun _ => 1) m disk

def configQueue : UpdateManager Nat := sampleQueue .config (.config (.default "2"))

/-- the configuration can be read, its write fails and the rollback succeeds -/
def configDisk : Disk :=
  ⟨AList.insert path [7] ∅, [none, none, some ⟨some 0, "No space left on device"⟩]⟩

theorem config_rolled_back :
    ∃ call ∈ (sampleProcess configQueue configDisk).1, call.out.status = .rolledBack ∧
      ∀ path, call.after.2.files.lookup path = call.before.2.files.lookup path := by
  have hqd : ∀ u ∈ configQueue.pending, u.Queued := by
    intro u hu
    obtain rfl := List.mem_singleton.mp hu
    exact ⟨rfl, .inr ⟨_, rfl, rfl⟩⟩
  have hss : (record (processNext sampleCrypto noText sampleDir fun _ => 1)
      ("0.1.0", configDisk) (configQueue.pending.head (by decide))).1.out.status = .rolledBack := by
    decide +kernel
  exact ⟨_, List.mem_cons_self, hss, ((rolled_back_iff configQueue configDisk rfl hqd).2 _
    List.mem_cons_self hss).mpr trivial⟩

def codeQueue : UpdateManager Nat :=
  sampleQueue (.challenge (uuidOfByte 1)) (.wasmChallenge [9] (computeHash sampleCrypto [9])
    ⟨uuidText (uuidOfByte 1), "c", computeHash sampleCrypto [9], "", 0, true, 600, 10⟩)

/-- there is a code of three bytes, and the write of the new one fails -/
def codeDisk : Disk :=
  ⟨AList.insert (codeFile (uuidOfByte 1)) [1, 2, 3] ∅,
    [none, some ⟨some 0, "No space left on device"⟩]⟩

theorem lost_code :
    (codeQueue.processUpdates sampleCrypto noText sampleDir (fun _ => 1) codeDisk).2.1.history.map
        Update.status = [.rolledBack] ∧
      codeDisk.files.lookup (codeFile (uuidOfByte 1)) = some [1, 2, 3] ∧
      (codeQueue.processUpdates sampleCrypto noText sampleDir (fun _ => 1)
        codeDisk).2.2.files.lookup (codeFile (uuidOfByte 1)) = some [] := by
  decide +kernel

end Platform.Subnet
