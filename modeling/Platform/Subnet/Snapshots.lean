import Platform.Chain.Versioning
import Platform.Lib.MaxBy
import Platform.Subnet.Config

/-!
# Snapshots (`crates/subnet-manager/src/snapshot.rs`)

A snapshot is a file with the chain state, the configuration and the databases of the challenges.
The manager keeps a list of them, written to an index after every change, and removes the oldest
ones beyond its limit.

* The state of the chain and the snapshots are written with bincode, the index as JSON.
* A database is only stored as the path of its directory, as in the source.  Directories are not
  kept in the model: what is found in `challenges` is an argument of `createSnapshot`.
-/

namespace Platform.Subnet
open Platform.Core Lib Chain List HashMap AList

structure SnapshotMeta (T : Type) where
  id : Uuid
  name : String
  blockHeight : UInt64
  epoch : UInt64
  stateHash : String
  createdAt : T
  sizeBytes : UInt64
  auto : Bool
  reason : String

structure Snapshot (T : Type) where
  metadata : SnapshotMeta T
  chainState : Bytes
  challengeData : HashMap String Bytes
  config : Bytes

/-! ## how they are written -/

namespace Layout
open BinCodec Chain.Layout

variable {T : Type}

def snapshotMeta (fmt : DateFormat T) : BinCodec (SnapshotMeta T) :=
  iso (pair uuid (pair string (pair u64 (pair u64 (pair string (pair (dateTime fmt)
      (pair u64 (pair bool string))))))))
    (fun m => (m.id, m.name, m.blockHeight, m.epoch, m.stateHash, m.createdAt, m.sizeBytes, m.auto,
      m.reason))
    fun (a, b, c, d, e, f, g, h, i) => ⟨a, b, c, d, e, f, g, h, i⟩

def snapshot (fmt : DateFormat T) : BinCodec (Snapshot T) :=
  iso (pair (snapshotMeta fmt) (pair bytes (pair (map string bytes) bytes)))
    (fun s => (s.metadata, s.chainState, s.challengeData, s.config))
    fun (a, b, c, d) => ⟨a, b, c, d⟩

variable {fmt : DateFormat T}

theorem lawful_snapshotMeta (hfmt : fmt.Lawful) : (snapshotMeta fmt).Lawful :=
  lawful_iso (lawful_pair lawful_uuid (lawful_pair lawful_string (lawful_pair lawful_u64
    (lawful_pair lawful_u64 (lawful_pair lawful_string (lawful_pair (lawful_dateTime hfmt)
      (lawful_pair lawful_u64 (lawful_pair lawful_bool lawful_string)))))))) fun _ => rfl

theorem lawful_snapshot (hfmt : fmt.Lawful) : (snapshot fmt).Lawful :=
  lawful_iso (lawful_pair (lawful_snapshotMeta hfmt) (lawful_pair lawful_bytes
    (lawful_pair (lawful_map lawful_string lawful_bytes) lawful_bytes))) fun _ => rfl

end Layout

def uuidCodec : Codec Uuid := .through .string uuidText parseUuid

theorem roundTrips_uuid (u : Uuid) : uuidCodec.RoundTrips u :=
  Codec.roundTrips_through (parseUuid_uuidText u) (Codec.roundTrips_string _)

section
variable {T : Type}

def snapshotMetaCodec (fmt : DateFormat T) : Codec (SnapshotMeta T) :=
  .ofEquiv
    { toFun := fun m =>
        (m.id, m.name, m.blockHeight, m.epoch, m.stateHash, m.createdAt, m.sizeBytes, m.auto,
          m.reason, ())
      invFun := fun (a, b, c, d, e, f, g, h, i, ()) => ⟨a, b, c, d, e, f, g, h, i⟩ }
    (Fields.codec <|
      .cons "id" uuidCodec <|
      .cons "name" .string <|
      .cons "block_height" .u64 <|
      .cons "epoch" .u64 <|
      .cons "state_hash" .string <|
      .cons "created_at" (dateCodec fmt) <|
      .cons "size_bytes" .u64 <|
      .cons "auto" .bool <|
      .cons "reason" .string <|
      .nil)

theorem roundTrips_snapshotMeta {fmt : DateFormat T} (hfmt : fmt.Lawful) (m : SnapshotMeta T) :
    (snapshotMetaCodec fmt).RoundTrips m := by
  simp [snapshotMetaCodec, roundTrips_uuid, roundTrips_date hfmt]

def indexCodec (fmt : DateFormat T) : Codec (List (SnapshotMeta T)) := .list (snapshotMetaCodec fmt)

theorem roundTrips_index {fmt : DateFormat T} (hfmt : fmt.Lawful) (l : List (SnapshotMeta T)) :
    (indexCodec fmt).RoundTrips l :=
  (Codec.roundTrips_list _ l).mpr fun m _ => roundTrips_snapshotMeta hfmt m

end

/-! ## the manager -/

structure SnapshotManager (T : Type) where
  maxSnapshots : UInt32
  snapshots : List (SnapshotMeta T)

abbrev SnapshotM (T α : Type) := EStateM String (SnapshotManager T × Disk) α

/-- what `create_snapshot` reads from the system: the clock, a fresh id and the challenges that have
a database, with the paths of the databases -/
structure SnapshotEnv (T : Type) where
  now : T
  newId : Uuid
  databases : List (String × String)

def snapshotPath (id : Uuid) : String := "snapshots/" ++ uuidText id ++ ".snapshot"

def indexPath : String := "snapshots/index.json"

def computeHash (C : Crypto) (data : Bytes) : String := hexEncode (C.sha256 data).bytes

namespace SnapshotManager
variable {T : Type}

def onDisk {α : Type} (x : DiskM α) : SnapshotM T α := onPart Prod.snd (fun s d => (s.1, d)) x

def setSnapshots (l : List (SnapshotMeta T)) : SnapshotM T Unit :=
  modify fun s => ({ s.1 with snapshots := l }, s.2)

variable (text : JsonText) (fmt : DateFormat T)

def loadSnapshotIndex : DiskM (List (SnapshotMeta T)) := do
  if ← existsFile indexPath then
    loadJson text (indexCodec fmt) indexPath
  else
    return []

def new (maxSnapshots : UInt32) :
    DiskM (SnapshotManager T) := do
  createDir
  let snapshots ← loadSnapshotIndex text fmt
  return ⟨maxSnapshots, snapshots⟩

def saveSnapshotIndex : SnapshotM T Unit := do
  let s ← get
  onDisk (saveJson text (indexCodec fmt) indexPath s.1.snapshots)

def removeSnapshot (id : Uuid) : DiskM Unit := do
  if ← existsFile (snapshotPath id) then
    removeFile (snapshotPath id)

def removeSnapshots : List (SnapshotMeta T) → DiskM Unit
  | [] => return ()
  | m :: rest => do
    removeSnapshot m.id
    removeSnapshots rest

/-- the order of `sort_by_key`, a stable sort -/
def Older [LinearOrder T] (a b : SnapshotMeta T) : Prop := a.createdAt ≤ b.createdAt

instance [LinearOrder T] : DecidableRel (Older (T := T)) := fun a b =>
  inferInstanceAs (Decidable (a.createdAt ≤ b.createdAt))

def pruneSnapshots [LinearOrder T] (text : JsonText) (fmt : DateFormat T) : SnapshotM T Unit := do
  let s ← get
  if s.1.snapshots.length ≤ s.1.maxSnapshots.toNat then
    return ()
  else
    let sorted := s.1.snapshots.insertionSort Older
    let toRemove := sorted.length - s.1.maxSnapshots.toNat
    setSnapshots (sorted.drop toRemove)
    onDisk (removeSnapshots (sorted.take toRemove))
    saveSnapshotIndex text fmt

/-- the snapshot that is written, with the configuration that was read -/
def snapshotOf (C : Crypto) (fmt : DateFormat T) (env : SnapshotEnv T) (config : Bytes)
    (name : String) (blockHeight epoch : UInt64) (state : ChainState T) (reason : String)
    (auto : Bool) : Snapshot T :=
  let chainState := (Chain.Layout.chainState fmt).ser state
  { metadata := ⟨env.newId, name, blockHeight, epoch, computeHash C chainState, env.now, 0, auto,
      reason⟩
    chainState := chainState
    -- a database is stored as the text of its path
    challengeData := .collect (env.databases.map fun p => (p.1, utf8 p.2))
    config := config }

def entryOf (snapshot : Snapshot T) : SnapshotMeta T :=
  { snapshot.metadata with sizeBytes := .ofNat ((Layout.snapshot fmt).ser snapshot).length }

def readConfig : DiskM Bytes := do
  if ← existsFile SubnetConfig.path then
    readFile SubnetConfig.path
  else
    return []

def createSnapshot [LinearOrder T] (C : Crypto) (text : JsonText) (fmt : DateFormat T)
    (env : SnapshotEnv T) (name : String) (blockHeight epoch : UInt64) (state : ChainState T)
    (reason : String) (auto : Bool) : SnapshotM T Uuid := do
  let databases ← onDisk (readDir env.databases)
  let config ← onDisk readConfig
  let snapshot := snapshotOf C fmt { env with databases := databases } config name blockHeight epoch
    state reason auto
  onDisk (writeFile (snapshotPath env.newId) ((Layout.snapshot fmt).ser snapshot))
  let s ← get
  setSnapshots (s.1.snapshots ++ [entryOf fmt snapshot])
  saveSnapshotIndex text fmt
  pruneSnapshots text fmt
  return env.newId

def restoreSnapshot (C : Crypto) (fmt : DateFormat T) (id : Uuid) : DiskM (Snapshot T) := do
  if ← existsFile (snapshotPath id) then
    let content ← readFile (snapshotPath id)
    match (Layout.snapshot fmt).deserialize content with
    | .error e => throw e.display
    | .ok snapshot =>
      if computeHash C snapshot.chainState ≠ snapshot.metadata.stateHash then
        throw "Snapshot corrupted: hash mismatch"
      else
        return snapshot
  else
    throw ("Snapshot not found: " ++ uuidText id)

def deserializeDirectory (path : String) (data : Bytes) : DiskM Unit := do
  createDir
  if data ≠ [] then
    writeFile (path ++ "/data.bin") data

def restoreChallenges : List (String × Bytes) → DiskM Unit
  | [] => return ()
  | (challengeId, data) :: rest => do
    createDir
    deserializeDirectory ("challenges/" ++ challengeId ++ "/db") data
    restoreChallenges rest

def applySnapshot (it : Iteration String) (snapshot : Snapshot T) :
    DiskM (ChainState T) := do
  match (Chain.Layout.chainState fmt).deserialize snapshot.chainState with
  | .error e => throw e.display
  | .ok state =>
    if snapshot.config ≠ [] then
      writeFile SubnetConfig.path snapshot.config
    createDir
    restoreChallenges (snapshot.challengeData.pairsBy it)
    return state

def latestSnapshot [LinearOrder T] (m : SnapshotManager T) : Option (SnapshotMeta T) :=
  maxByKey SnapshotMeta.createdAt m.snapshots

def deleteSnapshot (id : Uuid) : SnapshotM T Unit := do
  onDisk (removeSnapshot id)
  let s ← get
  setSnapshots (s.1.snapshots.filter fun m => decide (m.id ≠ id))
  saveSnapshotIndex text fmt

/-! ## without failures -/

section
variable {text : JsonText} {fmt : DateFormat T} {files : Files String} {m : SnapshotManager T}
  {path : String}

theorem onDisk_of_ok {α : Type} {x : DiskM α} {d d' : Disk} {a : α} (h : x d = .ok a d') :
    onDisk x (m, d) = .ok a (m, d') := onPart_of_ok h

/-- what `create_snapshot` takes for the configuration -/
def configOf (files : Files String) : Bytes := (files.lookup SubnetConfig.path).getD []

theorem readConfig_quiet : readConfig ⟨files, []⟩ = .ok (configOf files) ⟨files, []⟩ := by
  refine (bind_of_ok (existsFile_quiet files _)).trans ?_
  unfold configOf
  cases h : files.lookup SubnetConfig.path with
  | none =>
    rw [if_neg (by simp [lookup_eq_none.mp h])]
    rfl
  | some txt =>
    rw [if_pos (by simp [mem_of_lookup h])]
    exact readFile_quiet h

theorem removeSnapshot_quiet (id : Uuid) :
    removeSnapshot id ⟨files, []⟩ = .ok () ⟨files.erase (snapshotPath id), []⟩ := by
  refine (bind_of_ok (existsFile_quiet files _)).trans ?_
  by_cases h : snapshotPath id ∈ files
  · rw [if_pos (decide_eq_true h)]
    exact removeFile_quiet files _
  · rw [if_neg (by simp [h]), erase_of_lookup_none (lookup_eq_none.mpr h)]
    rfl

theorem removeSnapshots_quiet (l : List (SnapshotMeta T)) (files : Files String) :
    removeSnapshots l ⟨files, []⟩ =
      .ok ()
        ⟨(l.map fun m => snapshotPath m.id).foldl (fun files p => files.erase p) files, []⟩ := by
  induction l generalizing files with
  | nil => rfl
  | cons m l ih => exact (bind_of_ok (removeSnapshot_quiet m.id)).trans (ih _)

def Indexed (text : JsonText) (fmt : DateFormat T) (files : Files String)
    (l : List (SnapshotMeta T)) : Prop :=
  match files.lookup indexPath with
  | none => l = []
  | some content => decodeJson text (indexCodec fmt) content = .ok l

theorem loadSnapshotIndex_quiet {l : List (SnapshotMeta T)} (h : Indexed text fmt files l) :
    loadSnapshotIndex text fmt ⟨files, []⟩ = .ok l ⟨files, []⟩ := by
  refine (bind_of_ok (existsFile_quiet files _)).trans ?_
  unfold Indexed at h
  cases hix : files.lookup indexPath with
  | none =>
    rw [hix] at h
    rw [if_neg (by simp [lookup_eq_none.mp hix]), show l = [] from h]
    rfl
  | some txt =>
    rw [hix] at h
    rw [if_pos (by simp [mem_of_lookup hix]), loadJson_quiet hix,
      show decodeJson text (indexCodec fmt) txt = .ok l from h]
    rfl

theorem new_quiet {max : UInt32} {l : List (SnapshotMeta T)} (h : Indexed text fmt files l) :
    new text fmt max ⟨files, []⟩ = .ok ⟨max, l⟩ ⟨files, []⟩ :=
  (bind_of_ok (createDir_quiet files)).trans (bind_of_ok (loadSnapshotIndex_quiet h))

variable (ht : text.Lawful) (hf : fmt.Lawful)

include hf in
theorem saveSnapshotIndex_quiet :
    saveSnapshotIndex text fmt (m, ⟨files, []⟩) =
      .ok () (m, ⟨files.insert indexPath (jsonBytes text (indexCodec fmt) m.snapshots), []⟩) := by
  show onDisk (saveJson text (indexCodec fmt) indexPath m.snapshots) (m, ⟨files, []⟩) = _
  rw [saveJson_eq (roundTrips_index hf m.snapshots)]
  exact onDisk_of_ok (writeFile_quiet files indexPath _)

include ht hf in
theorem indexed_insert (l : List (SnapshotMeta T)) :
    Indexed text fmt (files.insert indexPath (jsonBytes text (indexCodec fmt) l)) l := by
  unfold Indexed
  rw [lookup_insert]
  exact decodeJson_jsonBytes ht (roundTrips_index hf l)

include ht hf in
theorem deleteSnapshot_quiet (m : SnapshotManager T) (files : Files String) (id : Uuid) :
    ∃ fs', deleteSnapshot text fmt id (m, ⟨files, []⟩) =
        .ok () ({ m with snapshots := m.snapshots.filter fun m => decide (m.id ≠ id) }, ⟨fs', []⟩) ∧
      Indexed text fmt fs' (m.snapshots.filter fun m => decide (m.id ≠ id)) ∧
      ∀ path txt, path ≠ indexPath → (fs'.lookup path = some txt ↔
        path ≠ snapshotPath id ∧ files.lookup path = some txt) := by
  refine ⟨_, (bind_of_ok (onDisk_of_ok (removeSnapshot_quiet id))).trans
    (saveSnapshotIndex_quiet hf), indexed_insert ht hf _, ?_⟩
  intro path txt hpt
  rw [lookup_insert_ne hpt, lookup_erase_iff]

theorem restoreChallenges_quiet (l : List (String × Bytes)) (files : Files String) :
    ∃ fs', restoreChallenges l ⟨files, []⟩ = .ok () ⟨fs', []⟩ := by
  induction l generalizing files with
  | nil => exact ⟨files, rfl⟩
  | cons p l ih =>
    obtain ⟨cid, data⟩ := p
    have hdr : ∃ fs', deserializeDirectory ("challenges/" ++ cid ++ "/db") data
        ⟨files, []⟩ = .ok () ⟨fs', []⟩ := by
      by_cases hdt : data ≠ []
      · exact ⟨_, (bind_of_ok (createDir_quiet files)).trans (by rw [if_pos hdt]; rfl)⟩
      · exact ⟨_, (bind_of_ok (createDir_quiet files)).trans (by rw [if_neg hdt]; rfl)⟩
    obtain ⟨fs₁, h₁⟩ := hdr
    obtain ⟨fs₂, h₂⟩ := ih fs₁
    exact ⟨fs₂, (bind_of_ok (createDir_quiet files)).trans ((bind_of_ok h₁).trans h₂)⟩

theorem applySnapshot_quiet (files : Files String) {snap : Snapshot T} {st : ChainState T}
    (h : (Chain.Layout.chainState fmt).deserialize snap.chainState = .ok st)
    (it : Iteration String) :
    ∃ fs', applySnapshot fmt it snap ⟨files, []⟩ = .ok st ⟨fs', []⟩ := by
  unfold applySnapshot
  rw [h]
  by_cases hcn : snap.config ≠ []
  · obtain ⟨fs', hfl⟩ := restoreChallenges_quiet (snap.challengeData.pairsBy it)
      (files.insert SubnetConfig.path snap.config)
    refine ⟨fs', ?_⟩
    simp only [if_pos hcn]
    refine (bind_of_ok (writeFile_quiet files _ _)).trans ?_
    exact (bind_of_ok (createDir_quiet _)).trans (bind_of_ok hfl)
  · obtain ⟨fs', hfl⟩ := restoreChallenges_quiet (snap.challengeData.pairsBy it) files
    refine ⟨fs', ?_⟩
    simp only [if_neg hcn]
    exact (bind_of_ok (createDir_quiet _)).trans (bind_of_ok hfl)

theorem restoreSnapshot_quiet {C : Crypto} {id : Uuid} {txt : Bytes} {snap : Snapshot T}
    (hfl : files.lookup (snapshotPath id) = some txt)
    (hr : (Layout.snapshot fmt).deserialize txt = .ok snap)
    (hh : computeHash C snap.chainState = snap.metadata.stateHash) :
    restoreSnapshot C fmt id ⟨files, []⟩ = .ok snap ⟨files, []⟩ := by
  refine (bind_of_ok (existsFile_quiet files _)).trans ?_
  rw [if_pos (decide_eq_true (mem_of_lookup hfl))]
  refine (bind_of_ok (readFile_quiet hfl)).trans ?_
  simp only [hr]
  rw [if_neg (not_not.mpr hh)]
  rfl

def excess (max : UInt32) (l : List (SnapshotMeta T)) : List String :=
  (l.take (l.length - max.toNat)).map fun m => snapshotPath m.id

variable [LinearOrder T]

include ht hf in
theorem pruneSnapshots_quiet (hix : Indexed text fmt files m.snapshots)
    (hsr : m.snapshots.Pairwise Older) :
    ∃ fs', pruneSnapshots text fmt (m, ⟨files, []⟩) =
        .ok () ({ m with snapshots :=
          m.snapshots.drop (m.snapshots.length - m.maxSnapshots.toNat) }, ⟨fs', []⟩) ∧
      Indexed text fmt fs' (m.snapshots.drop (m.snapshots.length - m.maxSnapshots.toNat)) ∧
      ∀ path txt, path ≠ indexPath → (fs'.lookup path = some txt ↔
        path ∉ excess m.maxSnapshots m.snapshots ∧ files.lookup path = some txt) := by
  by_cases hrm : m.snapshots.length ≤ m.maxSnapshots.toNat
  · have hn : m.snapshots.length - m.maxSnapshots.toNat = 0 := by omega
    unfold excess
    rw [hn]
    refine ⟨files, ?_, hix, fun path txt _ => ?_⟩
    · show (if m.snapshots.length ≤ m.maxSnapshots.toNat then
        (pure () : SnapshotM T Unit) else _) (m, _) = _
      rw [if_pos hrm]
      rfl
    · simp
  · -- the clock has not gone back, so the list is sorted already
    have hs : m.snapshots.insertionSort Older = m.snapshots := hsr.insertionSort_eq
    refine ⟨insert indexPath _ ((excess m.maxSnapshots m.snapshots).foldl
      (fun files p => files.erase p) files), ?_, indexed_insert ht hf _,
      fun path txt hpt => ?_⟩
    · show (if m.snapshots.length ≤ m.maxSnapshots.toNat then
        (pure () : SnapshotM T Unit) else _) (m, _) = _
      rw [if_neg hrm]
      simp only [hs]
      exact (bind_of_ok (onDisk_of_ok (removeSnapshots_quiet _ files))).trans
        (saveSnapshotIndex_quiet hf)
    · rw [lookup_insert_ne hpt, lookup_foldl_erase_iff]

include ht hf in
theorem createSnapshot_quiet (C : Crypto) {env : SnapshotEnv T} {name why : String}
    {bh ep : UInt64} {st : ChainState T} {auto : Bool} {snap : Snapshot T}
    (hsn : snapshotOf C fmt env (configOf files) name bh ep st why auto =
      snap) {all : List (SnapshotMeta T)} (ha : m.snapshots ++ [entryOf fmt snap] = all)
    (hs : all.Pairwise Older) :
    ∃ fs', createSnapshot C text fmt env name bh ep st why auto (m, ⟨files, []⟩) =
        .ok env.newId ({ m with snapshots := all.drop (all.length - m.maxSnapshots.toNat) },
          ⟨fs', []⟩) ∧
      Indexed text fmt fs' (all.drop (all.length - m.maxSnapshots.toNat)) ∧
      ∀ path txt, path ≠ indexPath → (fs'.lookup path = some txt ↔
        path ∉ excess m.maxSnapshots all ∧
          (files.insert (snapshotPath env.newId) ((Layout.snapshot fmt).ser snap)).lookup path =
            some txt) := by
  subst hsn ha
  obtain ⟨fs', hpr, hix, hfl⟩ := pruneSnapshots_quiet ht hf
    (m := ⟨m.maxSnapshots, m.snapshots ++ [entryOf fmt (snapshotOf C fmt env (configOf files) name
      bh ep st why auto)]⟩) (indexed_insert ht hf _) hs
  refine ⟨fs', ?_, hix, fun path txt hpt => ?_⟩
  · refine (bind_of_ok (onDisk_of_ok (readDir_quiet files env.databases))).trans ?_
    refine (bind_of_ok (onDisk_of_ok readConfig_quiet)).trans ?_
    refine (bind_of_ok (onDisk_of_ok (writeFile_quiet files _ _))).trans ?_
    refine (bind_of_ok (saveSnapshotIndex_quiet hf)).trans ?_
    exact bind_of_ok hpr
  · rw [hfl path txt hpt, lookup_insert_ne hpt]

end

end SnapshotManager

/-! ## runs -/

def IsSnapshotFile (path : String) : Prop :=
  "snapshots/".toList <+: path.toList ∧ ".snapshot".toList <:+ path.toList

theorem isSnapshotFile_snapshotPath (id : Uuid) : IsSnapshotFile (snapshotPath id) := by
  unfold IsSnapshotFile snapshotPath
  rw [String.toList_append, String.toList_append]
  refine ⟨?_, suffix_append _ _⟩
  rw [append_assoc]
  exact prefix_append _ _

theorem not_isSnapshotFile_indexPath : ¬ IsSnapshotFile indexPath := by
  rintro ⟨-, h⟩
  revert h
  decide

theorem snapshotPath_inj {id id' : Uuid} (h : snapshotPath id = snapshotPath id') : id = id' := by
  have htext := congrArg String.toList h
  unfold snapshotPath at htext
  simp only [String.toList_append] at htext
  have hcn := append_cancel_left (append_cancel_right htext)
  exact uuidText_inj (String.toList_inj.mp hcn)

section
variable {T : Type}

inductive SnapshotInput (T : Type) where
  | create (env : SnapshotEnv T) (name : String) (blockHeight epoch : UInt64)
      (state : ChainState T) (reason : String) (auto : Bool)
  | delete (id : Uuid)
  | restart

abbrev SnapshotState (T : Type) := SnapshotManager T × Disk

abbrev SnapshotCall (T : Type) := Call (SnapshotState T) (SnapshotInput T) (Except String Unit)

/-- what a program returns, and what it leaves -/
def outcome {σ α : Type} : EStateM.Result String σ α → Except String Unit × σ
  | .ok _ s => (.ok (), s)
  | .error e s => (.error e, s)

/-- one operation; after a restart that fails the node does not run, and nothing has changed -/
def snapshotNext [LinearOrder T] (C : Crypto) (text : JsonText) (fmt : DateFormat T)
    (s : SnapshotState T) : SnapshotInput T → Except String Unit × SnapshotState T
  | .create env name blockHeight epoch state reason auto =>
    outcome
      (SnapshotManager.createSnapshot C text fmt env name blockHeight epoch state reason auto s)
  | .delete id => outcome (SnapshotManager.deleteSnapshot text fmt id s)
  | .restart =>
    match SnapshotManager.new text fmt s.1.maxSnapshots s.2 with
    | .ok m d => (.ok (), (m, d))
    | .error e d => (.error e, (s.1, d))

def written (C : Crypto) (fmt : DateFormat T) (call : SnapshotCall T) :
    Option (ChainState T × Snapshot T) :=
  match call.input with
  | .create env name blockHeight epoch state reason auto =>
    some (state, SnapshotManager.snapshotOf C fmt env (SnapshotManager.configOf call.before.2.files)
      name blockHeight epoch state reason auto)
  | _ => none

def created (C : Crypto) (fmt : DateFormat T) (log : List (SnapshotCall T)) :
    List (SnapshotMeta T) :=
  (log.filterMap (written C fmt)).map fun p => SnapshotManager.entryOf fmt p.2

/-- the ids that are kept: after a creation the last ones, as many as there is room for -/
def keptStep (max : Nat) (ids : List Uuid) : SnapshotInput T → List Uuid
  | .create env _ _ _ _ _ _ => (ids ++ [env.newId]).drop ((ids ++ [env.newId]).length - max)
  | .delete id => ids.filter fun i => decide (i ≠ id)
  | .restart => ids

def kept (max : Nat) (inputs : List (SnapshotInput T)) : List Uuid := inputs.foldl (keptStep max) []

theorem length_kept_le (max : Nat) (ins : List (SnapshotInput T)) :
    (kept max ins).length ≤ max := by
  have hfl : ∀ ids : List Uuid, ids.length ≤ max → (ins.foldl (keptStep max) ids).length ≤ max := by
    induction ins with
    | nil => exact fun ids h => h
    | cons inp ins ih =>
      intro ids h
      refine ih _ ?_
      cases inp with
      | create env _ _ _ _ _ _ =>
        show (drop _ _).length ≤ max
        rw [length_drop]
        omega
      | delete id => exact (length_filter_le _ _).trans h
      | restart => exact h
  exact hfl [] (Nat.zero_le max)

theorem kept_snoc (max : Nat) (ins : List (SnapshotInput T)) (input : SnapshotInput T) :
    kept max (ins ++ [input]) = keptStep max (kept max ins) input := by
  unfold kept
  rw [foldl_append]
  rfl

/-- **How list, index and files belong together.** -/
structure Consistent (C : Crypto) (text : JsonText) (fmt : DateFormat T) (max : UInt32)
    (log : List (SnapshotCall T)) (s : SnapshotState T) : Prop where
  quiet : s.2.faults = []
  max_eq : s.1.maxSnapshots = max
  listed : s.1.snapshots.map SnapshotMeta.id = kept max.toNat (log.map Call.input)
  sublist : s.1.snapshots.Sublist (created C fmt log)
  index : SnapshotManager.Indexed text fmt s.2.files s.1.snapshots
  holds : ∀ path content, IsSnapshotFile path → (s.2.files.lookup path = some content ↔
    ∃ p ∈ log.filterMap (written C fmt), p.2.metadata.id ∈ s.1.snapshots.map SnapshotMeta.id ∧
      path = snapshotPath p.2.metadata.id ∧ content = (Layout.snapshot fmt).ser p.2)

theorem mem_drop_iff_of_nodup {α : Type} {l : List α} (h : l.Nodup) (n : Nat) (x : α) :
    x ∈ l.drop n ↔ x ∈ l ∧ x ∉ l.take n := by
  rw [← take_append_drop n l, nodup_append] at h
  constructor
  · intro hx
    exact ⟨mem_of_mem_drop hx, fun htk => h.2.2 x htk x hx rfl⟩
  · rintro ⟨hx, hnt⟩
    rw [← take_append_drop n l, mem_append] at hx
    exact hx.resolve_left hnt

variable {C : Crypto} {text : JsonText} {fmt : DateFormat T} {max : UInt32}
  {log : List (SnapshotCall T)} {call : SnapshotCall T} {s s' : SnapshotState T}

theorem created_snoc_none (h : written C fmt call = none) :
    created C fmt (log ++ [call]) = created C fmt log := by
  unfold created
  rw [filterMap_snoc_none h]

theorem created_snoc_some {p : ChainState T × Snapshot T} (h : written C fmt call = some p) :
    created C fmt (log ++ [call]) = created C fmt log ++ [SnapshotManager.entryOf fmt p.2] := by
  unfold created
  rw [filterMap_snoc_some h, map_append]
  rfl

theorem mem_kept_files {all : List (SnapshotMeta T)} (hnd : (all.map SnapshotMeta.id).Nodup)
    (id : Uuid) :
    id ∈ (all.drop (all.length - max.toNat)).map SnapshotMeta.id ↔
      id ∈ all.map SnapshotMeta.id ∧ snapshotPath id ∉ SnapshotManager.excess max all := by
  have hex : snapshotPath id ∈ SnapshotManager.excess max all ↔
      id ∈ (all.map SnapshotMeta.id).take (all.length - max.toNat) := by
    unfold SnapshotManager.excess
    rw [← map_take, mem_map, mem_map]
    constructor
    · rintro ⟨m, hm, heq⟩
      exact ⟨m, hm, snapshotPath_inj heq⟩
    · rintro ⟨m, hm, rfl⟩
      exact ⟨m, hm, rfl⟩
  rw [hex, map_drop, mem_drop_iff_of_nodup hnd]

def NoSnapshots (files : Files String) : Prop :=
  indexPath ∉ files ∧ ∀ path ∈ files, ¬ IsSnapshotFile path

variable [LinearOrder T]

theorem Consistent.restart (hiv : Consistent C text fmt max log s)
    (hstep : CallStep (snapshotNext C text fmt) s call s') (hip : call.input = .restart) :
    Consistent C text fmt max (log ++ [call]) s' := by
  obtain ⟨m, files, fts⟩ := s
  obtain rfl : fts = [] := hiv.quiet
  have ha : s' = (m, ⟨files, []⟩) := by
    rw [hstep.after_eq, hip]
    simp only [snapshotNext, SnapshotManager.new_quiet hiv.index]
  have hn : written C fmt call = none := by
    unfold written
    rw [hip]
  subst ha
  refine ⟨rfl, hiv.max_eq, ?_, ?_, hiv.index, ?_⟩
  · rw [map_append, map_singleton, kept_snoc, hip]
    exact hiv.listed
  · rw [created_snoc_none hn]
    exact hiv.sublist
  · rw [filterMap_snoc_none hn]
    exact hiv.holds

theorem Consistent.delete (htext : text.Lawful) (hfmt : fmt.Lawful)
    (hiv : Consistent C text fmt max log s)
    (hstep : CallStep (snapshotNext C text fmt) s call s') {id : Uuid}
    (hip : call.input = .delete id) : Consistent C text fmt max (log ++ [call]) s' := by
  obtain ⟨m, files, fts⟩ := s
  obtain rfl : fts = [] := hiv.quiet
  obtain ⟨fs', hdl, hix, hfl⟩ := SnapshotManager.deleteSnapshot_quiet htext hfmt m files id
  have ha : s' = ({ m with snapshots := m.snapshots.filter fun m => decide (m.id ≠ id) },
      ⟨fs', []⟩) := by
    rw [hstep.after_eq, hip]
    simp only [snapshotNext, hdl, outcome]
  have hn : written C fmt call = none := by
    unfold written
    rw [hip]
  have his : (m.snapshots.filter fun m => decide (m.id ≠ id)).map SnapshotMeta.id =
      (m.snapshots.map SnapshotMeta.id).filter fun i => decide (i ≠ id) := by
    rw [filter_map]
    rfl
  subst ha
  refine ⟨rfl, hiv.max_eq, ?_, ?_, hix, ?_⟩
  · rw [map_append, map_singleton, kept_snoc, hip, ← hiv.listed]
    exact his
  · rw [created_snoc_none hn]
    exact filter_sublist.trans hiv.sublist
  · intro path txt hpt
    have hne : path ≠ indexPath := by
      rintro rfl
      exact not_isSnapshotFile_indexPath hpt
    rw [filterMap_snoc_none hn, hfl path txt hne, hiv.holds path txt hpt, his]
    constructor
    · rintro ⟨hpt', p, hp, hm, rfl, hcn⟩
      refine ⟨p, hp, mem_filter.mpr ⟨hm, decide_eq_true ?_⟩, rfl, hcn⟩
      rintro rfl
      exact hpt' rfl
    · rintro ⟨p, hp, hm, rfl, hcn⟩
      obtain ⟨hm, hid⟩ := mem_filter.mp hm
      exact ⟨fun h => of_decide_eq_true hid (snapshotPath_inj h), p, hp, hm, rfl, hcn⟩

theorem Consistent.create (htext : text.Lawful) (hfmt : fmt.Lawful)
    (hiv : Consistent C text fmt max log s)
    (hstep : CallStep (snapshotNext C text fmt) s call s') {p : ChainState T × Snapshot T}
    (hwr : written C fmt call = some p)
    (his : ((created C fmt (log ++ [call])).map SnapshotMeta.id).Nodup)
    (hcl : (created C fmt (log ++ [call])).Pairwise SnapshotManager.Older) :
    Consistent C text fmt max (log ++ [call]) s' := by
  obtain ⟨m, files, fts⟩ := s
  obtain rfl : fts = [] := hiv.quiet
  obtain rfl : m.maxSnapshots = max := hiv.max_eq
  cases hip : call.input with
  | delete id | restart => simp [written, hip] at hwr
  | create env name bh ep st why auto =>
    have hsn : SnapshotManager.snapshotOf C fmt env (SnapshotManager.configOf files) name
        bh ep st why auto = p.2 := by
      simp only [written, hip, Option.some.injEq, hstep.1] at hwr
      rw [← hwr]
    have hid : p.2.metadata.id = env.newId := by
      rw [← hsn]
      rfl
    rw [created_snoc_some hwr] at his hcl
    -- the list with the new entry, before it is cut
    have hsb := hiv.sublist.append (List.Sublist.refl [SnapshotManager.entryOf fmt p.2])
    generalize hal : m.snapshots ++ [SnapshotManager.entryOf fmt p.2] = all at hsb
    have ha : all.map SnapshotMeta.id = m.snapshots.map SnapshotMeta.id ++ [env.newId] := by
      rw [← hal, map_append, ← hid]
      rfl
    obtain ⟨fs', hcr, hix, hfl⟩ := SnapshotManager.createSnapshot_quiet htext hfmt C
      hsn hal (hcl.sublist hsb)
    have haf : s' = ({ m with snapshots := all.drop (all.length - m.maxSnapshots.toNat) },
        ⟨fs', []⟩) := by
      rw [hstep.after_eq, hip]
      simp only [snapshotNext, hcr, outcome]
    subst haf
    refine ⟨rfl, rfl, ?_, ?_, hix, ?_⟩
    · rw [map_append, map_singleton, kept_snoc, hip, ← hiv.listed]
      show (all.drop _).map _ = drop _ _
      rw [← ha, length_map, map_drop]
    · rw [created_snoc_some hwr]
      exact (drop_sublist _ _).trans hsb
    · intro path txt hpt
      have hne : path ≠ indexPath := by
        rintro rfl
        exact not_isSnapshotFile_indexPath hpt
      have hnd := (hsb.map SnapshotMeta.id).nodup his
      rw [hfl path txt hne, lookup_insert_iff, hiv.holds path txt hpt, filterMap_snoc_some hwr]
      constructor
      · rintro ⟨hk, ⟨rfl, rfl⟩ | ⟨-, q, hq, hmem, rfl, rfl⟩⟩
        · refine ⟨p, mem_append_right _ mem_cons_self, ?_, by rw [hid], rfl⟩
          rw [mem_kept_files hnd, hid, ha]
          exact ⟨mem_append_right _ mem_cons_self, hk⟩
        · refine ⟨q, mem_append_left _ hq, ?_, rfl, rfl⟩
          rw [mem_kept_files hnd, ha]
          exact ⟨mem_append_left _ hmem, hk⟩
      · rintro ⟨q, hq, hmem, rfl, rfl⟩
        rw [mem_kept_files hnd, ha, mem_append] at hmem
        refine ⟨hmem.2, ?_⟩
        rw [map_append, nodup_append] at his
        rcases mem_append.mp hq with hq | hq
        · -- an old snapshot does not have the new id
          have ho : q.2.metadata.id ≠ env.newId := by
            rw [← hid]
            exact his.2.2 _ (mem_map.mpr ⟨_, mem_map.mpr ⟨q, hq, rfl⟩, rfl⟩) _ mem_cons_self
          refine .inr ⟨fun h => ho (snapshotPath_inj h), q, hq, hmem.1.resolve_right ?_, rfl, rfl⟩
          simpa using ho
        · obtain rfl := mem_singleton.mp hq
          exact .inl ⟨by rw [hid], rfl⟩

/-- **The invariant along runs.** -/
theorem consistent_of_run (htext : text.Lawful) (hfmt : fmt.Lawful) {s₀ : SnapshotState T}
    (hsr : Consistent C text fmt max [] s₀)
    (hrun : MachineRun (snapshotNext C text fmt) s₀ log s)
    (his : ((created C fmt log).map SnapshotMeta.id).Nodup)
    (hcl : (created C fmt log).Pairwise SnapshotManager.Older) :
    Consistent C text fmt max log s := by
  revert his hcl
  refine Run.logInvariant (P := fun l s => ((created C fmt l).map SnapshotMeta.id).Nodup →
    (created C fmt l).Pairwise SnapshotManager.Older → Consistent C text fmt max l s)
    (fun _ _ => hsr) ?_ hrun
  intro l s call s' _ ih hstep his hcl
  cases hwr : written C fmt call with
  | none =>
    rw [created_snoc_none hwr] at his hcl
    have hiv := ih his hcl
    cases hip : call.input with
    | create env name bh ep st why auto => simp [written, hip] at hwr
    | delete id => exact hiv.delete htext hfmt hstep hip
    | restart => exact hiv.restart hstep hip
  | some p =>
    have hsb : (created C fmt l).Sublist (created C fmt (l ++ [call])) := by
      rw [created_snoc_some hwr]
      exact sublist_append_left _ _
    have hiv := ih ((hsb.map SnapshotMeta.id).nodup his) (hcl.sublist hsb)
    exact hiv.create htext hfmt hstep hwr his hcl

/-- **Every listed snapshot can be restored.**  File operations do not fail, ids are fresh and the
clock does not go back; what is written can be read.  In every run of creations, deletions and
restarts on a directory without snapshots the list holds the last ones, at most as many as the
limit, the snapshot files are those of the list, and each listed one gives back the state it was
made of. -/
theorem listed_restorable (htext : text.Lawful) (hfmt : fmt.Lawful) {files : Files String}
    (hnone : NoSnapshots files) {m₀ : SnapshotManager T} {d₀ : Disk}
    (hnew : SnapshotManager.new text fmt max ⟨files, []⟩ = .ok m₀ d₀)
    (hrun : MachineRun (snapshotNext C text fmt) (m₀, d₀) log s)
    (hids : ((created C fmt log).map SnapshotMeta.id).Nodup)
    (hclock : (created C fmt log).Pairwise SnapshotManager.Older)
    (hread : ∀ p ∈ log.filterMap (written C fmt),
      (Chain.Layout.chainState fmt).deserialize ((Chain.Layout.chainState fmt).ser p.1) = .ok p.1 ∧
        (Layout.snapshot fmt).deserialize ((Layout.snapshot fmt).ser p.2) = .ok p.2) :
    s.1.snapshots.map SnapshotMeta.id = kept max.toNat (log.map Call.input) ∧
      s.1.snapshots.length ≤ max.toNat ∧
      (∀ path, path ∈ s.2.files ∧ IsSnapshotFile path ↔
        ∃ m ∈ s.1.snapshots, path = snapshotPath m.id) ∧
      ∀ p ∈ log.filterMap (written C fmt),
        p.2.metadata.id ∈ s.1.snapshots.map SnapshotMeta.id → ∀ it, ∃ disk, (do
          let snapshot ← SnapshotManager.restoreSnapshot C fmt p.2.metadata.id
          SnapshotManager.applySnapshot fmt it snapshot) s.2 = .ok p.1 disk := by
  have hix : SnapshotManager.Indexed text fmt files [] := by
    unfold SnapshotManager.Indexed
    rw [lookup_eq_none.mpr hnone.1]
  rw [SnapshotManager.new_quiet hix] at hnew
  cases hnew
  have hsr : Consistent C text fmt max [] (⟨max, []⟩, ⟨files, []⟩) := by
    refine ⟨rfl, rfl, rfl, List.Sublist.refl _, hix, fun path txt hpt => iff_of_false ?_ ?_⟩
    · intro h
      exact hnone.2 path (mem_of_lookup h) hpt
    · rintro ⟨p, hp, -⟩
      cases hp
  have hiv := consistent_of_run htext hfmt hsr hrun hids hclock
  refine ⟨hiv.listed, ?_, ?_, ?_⟩
  · rw [← length_map SnapshotMeta.id, hiv.listed]
    exact length_kept_le _ _
  · intro path
    constructor
    · rintro ⟨hmm, hpt⟩
      obtain ⟨txt, hcn⟩ := Option.isSome_iff_exists.mp (lookup_isSome.mpr hmm)
      obtain ⟨p, -, hid, rfl, -⟩ := (hiv.holds path txt hpt).mp hcn
      obtain ⟨m, hm, hmd⟩ := mem_map.mp hid
      exact ⟨m, hm, by rw [hmd]⟩
    · rintro ⟨m, hm, rfl⟩
      -- a listed entry comes from a call
      obtain ⟨p, hp, rfl⟩ := mem_map.mp (hiv.sublist.subset hm)
      have hfl := (hiv.holds _ _ (isSnapshotFile_snapshotPath p.2.metadata.id)).mpr
        ⟨p, hp, mem_map.mpr ⟨_, hm, rfl⟩, rfl, rfl⟩
      exact ⟨mem_of_lookup hfl, isSnapshotFile_snapshotPath _⟩
  · intro p hp hmm it
    obtain ⟨m, files, fts⟩ := s
    obtain rfl : fts = [] := hiv.quiet
    obtain ⟨call, -, hwr⟩ := mem_filterMap.mp hp
    have hpr : p.2.chainState = (Chain.Layout.chainState fmt).ser p.1 ∧
        p.2.metadata.stateHash = computeHash C p.2.chainState := by
      unfold written at hwr
      cases hip : call.input with
      | delete id | restart => simp [hip] at hwr
      | create env name bh ep st why auto =>
        simp only [hip, Option.some.injEq] at hwr
        rw [← hwr]
        exact ⟨rfl, rfl⟩
    have hfl := (hiv.holds _ _ (isSnapshotFile_snapshotPath p.2.metadata.id)).mpr
      ⟨p, hp, hmm, rfl, rfl⟩
    obtain ⟨fs', ha⟩ := SnapshotManager.applySnapshot_quiet files (hpr.1 ▸ (hread p hp).1) it
    exact ⟨_, (bind_of_ok (SnapshotManager.restoreSnapshot_quiet hfl (hread p hp).2
      hpr.2.symm)).trans ha⟩

end

/-! ## two snapshots where there is room for one, and a restart -/

def sampleTime : Fin 2 := ⟨0, Nat.two_pos⟩

def firstEnv : SnapshotEnv (Fin 2) := ⟨sampleTime, uuidOfByte 1, [("c", "/data/challenges/c/db")]⟩

def secondEnv : SnapshotEnv (Fin 2) :=
  ⟨⟨1, Nat.one_lt_two⟩, uuidOfByte 2, [("c", "/data/challenges/c/db")]⟩

def twoSnapshots : List (SnapshotInput (Fin 2)) :=
  [.create firstEnv "first" 50 2 (sampleState 50 2) "manual" false,
    .create secondEnv "second" 60 3 (sampleState 60 3) "manual" false, .restart]

/-- what is written of the first one, which makes room for the second one -/
def firstSnapshot : Snapshot (Fin 2) :=
  SnapshotManager.snapshotOf sampleCrypto sampleDates firstEnv [] "first" 50 2 (sampleState 50 2)
    "manual" false

def secondSnapshot : Snapshot (Fin 2) :=
  SnapshotManager.snapshotOf sampleCrypto sampleDates secondEnv [] "second" 60 3 (sampleState 60 3)
    "manual" false

def snapshotRun (text : JsonText) : List (SnapshotCall (Fin 2)) × SnapshotState (Fin 2) :=
  trace (snapshotNext sampleCrypto text sampleDates) (⟨1, []⟩, ⟨∅, []⟩) twoSnapshots

theorem written_snapshotRun (text : JsonText) :
    (snapshotRun text).1.filterMap (written sampleCrypto sampleDates) =
      [(sampleState 50 2, firstSnapshot), (sampleState 60 3, secondSnapshot)] := rfl

theorem kept_snapshotRun (text : JsonText) :
    kept 1 ((snapshotRun text).1.map Call.input) = [uuidOfByte 2] := by
  rw [snapshotRun, map_input_trace]
  rfl

theorem snapshot_restored_after_restart :
    ∃ text : JsonText, text.Lawful ∧
      (snapshotRun text).2.1.snapshots.map SnapshotMeta.id = [uuidOfByte 2] ∧ ∃ disk, (do
        let snapshot ← SnapshotManager.restoreSnapshot sampleCrypto sampleDates (uuidOfByte 2)
        SnapshotManager.applySnapshot sampleDates .asListed snapshot) (snapshotRun text).2.2 =
          .ok (sampleState 60 3) disk := by
  obtain ⟨text, htext⟩ := JsonText.exists_lawful
  have hrun : MachineRun (snapshotNext sampleCrypto text sampleDates) (⟨1, []⟩, ⟨∅, []⟩)
    (snapshotRun text).1 (snapshotRun text).2 := machineRun_trace _ _ _
  have hnew : SnapshotManager.new text sampleDates 1 ⟨∅, []⟩ = .ok ⟨1, []⟩ ⟨∅, []⟩ := rfl
  have hn : NoSnapshots ∅ := ⟨notMem_empty _, fun path h => absurd h (notMem_empty path)⟩
  have hwr := written_snapshotRun text
  have hkp := kept_snapshotRun text
  refine ⟨text, htext, ?_⟩
  -- the run is looked at through the lemmas only
  generalize snapshotRun text = r at *
  have hc : created sampleCrypto sampleDates r.1 =
      [SnapshotManager.entryOf sampleDates firstSnapshot,
        SnapshotManager.entryOf sampleDates secondSnapshot] := by
    rw [created, hwr]
    rfl
  have hids : ((created sampleCrypto sampleDates r.1).map SnapshotMeta.id).Nodup := by
    rw [hc]
    decide +kernel
  have hclock : (created sampleCrypto sampleDates r.1).Pairwise SnapshotManager.Older := by
    rw [hc]
    decide +kernel
  obtain ⟨hls, -, -, hrs⟩ := listed_restorable htext sampleDates_lawful hn hnew hrun hids hclock (by
    rw [hwr]
    have hst := Chain.Layout.lawful_chainState sampleDates_lawful
    have hsn := Layout.lawful_snapshot sampleDates_lawful
    intro p hp
    rcases mem_cons.mp hp with rfl | hp
    · exact ⟨hst.deserialize (by decide +kernel), hsn.deserialize (by decide +kernel)⟩
    · obtain rfl := mem_singleton.mp hp
      exact ⟨hst.deserialize (by decide +kernel), hsn.deserialize (by decide +kernel)⟩)
  have hls : r.2.1.snapshots.map SnapshotMeta.id = [uuidOfByte 2] := hls.trans hkp
  refine ⟨hls, hrs (sampleState 60 3, secondSnapshot) ?_ ?_ .asListed⟩
  · rw [hwr]
    exact mem_cons_of_mem _ mem_cons_self
  · rw [hls]
    exact mem_cons_self

end Platform.Subnet
