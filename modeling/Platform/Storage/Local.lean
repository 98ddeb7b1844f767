import Platform.Lib.Machine
import Platform.Storage.Store

/-!
# The local storage (`local.rs`)

The three trees of `sled` are ordered maps, the data tree keeps the entries themselves.  All errors
of an operation occur before its first write, so an operation returns the new storage or an error.
-/

namespace Platform.Storage
open Platform.Core Lib Chain
open scoped Lib.Bytewise

structure LocalStorage where
  data : OrdMap Bytes LocalEntry
  index : OrdMap Bytes Bytes
  blockIndex : OrdMap Bytes Bytes
  nodeId : String
  counts : HashMap String Nat
deriving DecidableEq

namespace LocalStorage

def inMemory (nodeId : String) : LocalStorage := ⟨∅, ∅, ∅, nodeId, ∅⟩

variable (C : Crypto) (now : Int64) (s : LocalStorage) (k : StorageKey) (value : Bytes)
  (existing : Option LocalEntry)

/-- What `put_entry` has written reads back (`localEntry_reads_back`). -/
def getEntry : StorageResult (Option LocalEntry) := .ok (s.data.get k.toBytes)

def dropOldBlock (blockId : Option UInt64) : OrdMap Bytes Bytes :=
  match existing with
  | some old =>
    if old.blockId ≠ blockId then
      match old.blockId with
      | some b => s.blockIndex.erase (blockIndexKey C k.ns b k)
      | none => s.blockIndex
    else s.blockIndex
  | none => s.blockIndex

/-- what `put_entry` writes, `existing` being the entry that it has read -/
def written (e : LocalEntry) : LocalStorage where
  data := s.data.insert k.toBytes e
  index := s.index.insert k.indexKey k.toBytes
  blockIndex :=
    match e.blockId with
    | some b =>
      (s.dropOldBlock C k existing e.blockId).insert (blockIndexKey C k.ns b k) k.toBytes
    | none => s.dropOldBlock C k existing e.blockId
  nodeId := s.nodeId
  counts :=
    if existing = none then s.counts.insert k.ns ((s.counts.lookup k.ns).getD 0 + 1) else s.counts

def putEntry (e : LocalEntry) :
    StorageResult LocalStorage := do
  let existing ← s.getEntry k
  .ok (s.written C k existing e)

/-- what `delete_entry` removes with the entry `e` -/
def removed (e : LocalEntry) : LocalStorage where
  data := s.data.erase k.toBytes
  index := s.index.erase k.indexKey
  blockIndex :=
    match e.blockId with
    | some b => s.blockIndex.erase (blockIndexKey C k.ns b k)
    | none => s.blockIndex
  nodeId := s.nodeId
  counts :=
    match s.counts.lookup k.ns with
    | some n => s.counts.insert k.ns (n - 1)
    | none => s.counts

def deleteEntry :
    StorageResult (Bool × LocalStorage) := do
  match ← s.getEntry k with
  | some e => .ok (true, s.removed C k e)
  | none => .ok (false, s)

def markReplicated (C : Crypto) (now : Int64) (s : LocalStorage) (k : StorageKey)
    (nodeId : String) : StorageResult LocalStorage := do
  match ← s.getEntry k with
  | some e => s.putEntry C k { e with replication := e.replication.markReplicated now nodeId }
  | none => .ok s

def get :
    StorageResult (Option StoredValue × LocalStorage) := do
  match ← s.getEntry k with
  | some e =>
    if e.value.metadata.isExpired now then
      let (_, s') ← s.deleteEntry C k
      .ok (none, s')
    else .ok (some e.value, s)
  | none => .ok (none, s)

/-- the check of `expected_version` -/
def checkVersion : Option UInt64 → StorageResult Unit
  | none => .ok ()
  | some expected =>
    match existing with
    | some e =>
      if e.value.metadata.version ≠ expected then
        .error (.conflict ("Version mismatch: expected " ++ toString expected.toNat ++ ", found " ++
          toString e.value.metadata.version.toNat))
      else .ok ()
    | none =>
      if expected ≠ 0 then
        .error (.conflict ("Key does not exist but expected version " ++ toString expected.toNat))
      else .ok ()

def storedFor (nodeId : String) (existing : Option LocalEntry) (value : Bytes)
    (options : PutOptions) : StoredValue :=
  let v : StoredValue :=
    match existing with
    | some e => ⟨value, e.value.metadata.update C now value (some nodeId)⟩
    | none => .new C now value (some nodeId)
  if 0 < options.ttlSeconds then
    { v with metadata := { v.metadata with ttlSeconds := options.ttlSeconds } }
  else v

def entryFor (nodeId : String) (existing : Option LocalEntry) (value : Bytes) (options : PutOptions)
    (blockId : Option UInt64) : LocalEntry where
  value := storedFor C now nodeId existing value options
  replication := { ReplicationInfo.default with needsReplication := !options.localOnly }
  blockId := blockId

/-- the common body of `put` and `put_entry_with_block_internal` -/
def putValue (options : PutOptions) (blockId : Option UInt64) :
    StorageResult (ValueMetadata × LocalStorage) := do
  let existing ← s.getEntry k
  checkVersion existing options.expectedVersion
  let e := entryFor C now s.nodeId existing value options blockId
  let s' ← s.putEntry C k e
  .ok (e.value.metadata, s')

def put (options : PutOptions) : StorageResult (ValueMetadata × LocalStorage) :=
  s.putValue C now k value options none

def putWithBlock (blockId : UInt64) (options : PutOptions) :
    StorageResult (ValueMetadata × LocalStorage) :=
  s.putValue C now k value options (some blockId)

def delete :
    StorageResult (Bool × LocalStorage) := s.deleteEntry C k

def countByNamespace (ns : String) : Nat := (s.counts.lookup ns).getD 0

end LocalStorage

/-! ## calls -/

inductive LocalOp where
  | put (k : StorageKey) (value : Bytes) (options : PutOptions)
  | putWithBlock (k : StorageKey) (value : Bytes) (blockId : UInt64) (options : PutOptions)
  | get (k : StorageKey)
  | delete (k : StorageKey)
  | markReplicated (k : StorageKey) (nodeId : String)
deriving DecidableEq

def LocalOp.key : LocalOp → StorageKey
  | .put k _ _ | .putWithBlock k _ _ _ | .get k | .delete k | .markReplicated k _ => k

def LocalOp.written : LocalOp → Option (StorageKey × Bytes × PutOptions × Option UInt64)
  | .put k value options => some (k, value, options, none)
  | .putWithBlock k value b options => some (k, value, options, some b)
  | .get _ | .delete _ | .markReplicated _ _ => none

def LocalOp.rewrites : LocalOp → Bool
  | .put _ _ _ | .putWithBlock _ _ _ _ | .delete _ => true
  | .get _ | .markReplicated _ _ => false

inductive LocalOut where
  | metadata (m : ValueMetadata)
  | value (v : Option StoredValue)
  | deleted (existed : Bool)
  | marked
deriving DecidableEq

def settle {α : Type} (s : LocalStorage) (out : α → LocalOut) :
    StorageResult (α × LocalStorage) → StorageResult LocalOut × LocalStorage
  | .ok (a, s') => (.ok (out a), s')
  | .error err => (.error err, s)

/-- one call at the time `now` -/
def localNext (C : Crypto) (s : LocalStorage) (c : Int64 × LocalOp) :
    StorageResult LocalOut × LocalStorage :=
  match c with
  | (now, .put k value options) => settle s .metadata (s.put C now k value options)
  | (now, .putWithBlock k value b options) =>
    settle s .metadata (s.putWithBlock C now k value b options)
  | (now, .get k) => settle s .value (s.get C now k)
  | (_, .delete k) => settle s .deleted (s.delete C k)
  | (now, .markReplicated k nodeId) =>
    settle s (fun _ : Unit => .marked) ((s.markReplicated C now k nodeId).map fun s' => ((), s'))

abbrev LocalCall := Call LocalStorage (Int64 × LocalOp) (StorageResult LocalOut)

/-- What one call can do to the storage, with what it has read. -/
inductive Effect (C : Crypto) (s : LocalStorage) : Int64 × LocalOp → LocalStorage → Prop
  | same (c : Int64 × LocalOp) : Effect C s c s
  | put {now : Int64} {k : StorageKey} {value : Bytes} {options : PutOptions}
      {existing : Option LocalEntry} (hread : s.data.get k.toBytes = existing)
      (hversion : LocalStorage.checkVersion existing options.expectedVersion = .ok ()) :
      Effect C s (now, .put k value options) (s.written C k existing
        (LocalStorage.entryFor C now s.nodeId existing value options none))
  | putWithBlock {now : Int64} {k : StorageKey} {value : Bytes} {b : UInt64} {options : PutOptions}
      {existing : Option LocalEntry} (hread : s.data.get k.toBytes = existing)
      (hversion : LocalStorage.checkVersion existing options.expectedVersion = .ok ()) :
      Effect C s (now, .putWithBlock k value b options) (s.written C k existing
        (LocalStorage.entryFor C now s.nodeId existing value options (some b)))
  | expired {now : Int64} {k : StorageKey} {e : LocalEntry} (hread : s.data.get k.toBytes = some e)
      (hexpired : e.value.metadata.isExpired now = true) :
      Effect C s (now, .get k) (s.removed C k e)
  | delete {now : Int64} {k : StorageKey} {e : LocalEntry} (hread : s.data.get k.toBytes = some e) :
      Effect C s (now, .delete k) (s.removed C k e)
  | markReplicated {now : Int64} {k : StorageKey} {nodeId : String} {e : LocalEntry}
      (hread : s.data.get k.toBytes = some e) :
      Effect C s (now, .markReplicated k nodeId) (s.written C k (some e)
        { e with replication := e.replication.markReplicated now nodeId })

section
variable {C : Crypto} {s : LocalStorage} {k : StorageKey} {e : LocalEntry} {c : Int64 × LocalOp}

theorem deleteEntry_of_some (h : s.data.get k.toBytes = some e) :
    s.deleteEntry C k = .ok (true, s.removed C k e) := by
  rw [LocalStorage.deleteEntry, LocalStorage.getEntry, h]
  rfl

theorem get_of_some (C : Crypto) (h : s.data.get k.toBytes = some e) (now : Int64) :
    s.get C now k = if e.value.metadata.isExpired now = true then .ok (none, s.removed C k e)
      else .ok (some e.value, s) := by
  rw [LocalStorage.get, LocalStorage.getEntry, h]
  show (if e.value.metadata.isExpired now = true then s.deleteEntry C k >>= _ else _) = _
  rw [deleteEntry_of_some h]
  rfl

theorem get_of_none (C : Crypto) (h : s.data.get k.toBytes = none) (now : Int64) :
    s.get C now k = .ok (none, s) := by
  rw [LocalStorage.get, LocalStorage.getEntry, h]
  rfl

def LocalStorage.answer (C : Crypto) (t : Int64) (s : LocalStorage) (k : StorageKey) :
    StorageResult (Option StoredValue) := (s.get C t k).map Prod.fst

section
variable {t : Int64}

theorem answer_of_some (h : s.data.get k.toBytes = some e) :
    s.answer C t k = .ok (if e.value.metadata.isExpired t = true then none else some e.value) := by
  rw [LocalStorage.answer, get_of_some C h]
  split <;> rfl

theorem answer_of_none (h : s.data.get k.toBytes = none) : s.answer C t k = .ok none := by
  rw [LocalStorage.answer, get_of_none C h]
  rfl

variable {k' : StorageKey} {s' : LocalStorage}

theorem answer_congr (h : s'.data.get k'.toBytes = s.data.get k.toBytes) :
    s'.answer C t k' = s.answer C t k := by
  cases hs : s.data.get k.toBytes with
  | none => rw [answer_of_none hs, answer_of_none (h.trans hs)]
  | some e => rw [answer_of_some hs, answer_of_some (h.trans hs)]

end

theorem data_storedFor (C : Crypto) (now : Int64) (nid : String)
    (old : Option LocalEntry) (value : Bytes) (opts : PutOptions) :
    (LocalStorage.storedFor C now nid old value opts).data = value := by
  unfold LocalStorage.storedFor
  cases old <;> (simp only; split <;> rfl)

theorem version_storedFor (C : Crypto) (now : Int64) (nid : String) (e : LocalEntry)
    (value : Bytes) (opts : PutOptions) :
    (LocalStorage.storedFor C now nid (some e) value opts).metadata.version =
      e.value.metadata.version + 1 := by
  unfold LocalStorage.storedFor
  simp only
  split <;> rfl

theorem putValue_cases (C : Crypto) (now : Int64) (s : LocalStorage) (k : StorageKey)
    (value : Bytes) (opts : PutOptions) (bid : Option UInt64) :
    (∃ err, s.putValue C now k value opts bid = .error err) ∨
    ∃ old, s.data.get k.toBytes = old ∧
      LocalStorage.checkVersion old opts.expectedVersion = .ok () ∧
      s.putValue C now k value opts bid =
        .ok ((LocalStorage.entryFor C now s.nodeId old value opts bid).value.metadata,
          s.written C k old (LocalStorage.entryFor C now s.nodeId old value opts bid)) := by
  unfold LocalStorage.putValue
  show (∃ err, (LocalStorage.checkVersion (s.data.get k.toBytes) opts.expectedVersion >>= _) = _) ∨
    ∃ old, _ ∧ _ ∧ (LocalStorage.checkVersion (s.data.get k.toBytes) opts.expectedVersion >>= _) = _
  cases hv : LocalStorage.checkVersion (s.data.get k.toBytes) opts.expectedVersion with
  | error err => exact .inl ⟨err, rfl⟩
  | ok _ => exact .inr ⟨_, rfl, hv, rfl⟩

theorem next_put_cases (C : Crypto) (s : LocalStorage) (now : Int64) {op : LocalOp} {value : Bytes}
    {opts : PutOptions} {bid : Option UInt64}
    (hop : op.written = some (k, value, opts, bid)) :
    (∃ err, localNext C s (now, op) = (.error err, s)) ∨
    (LocalStorage.checkVersion (s.data.get k.toBytes) opts.expectedVersion = .ok () ∧
      localNext C s (now, op) =
        (.ok (.metadata (LocalStorage.entryFor C now s.nodeId (s.data.get k.toBytes) value opts
          bid).value.metadata),
        s.written C k (s.data.get k.toBytes)
          (LocalStorage.entryFor C now s.nodeId (s.data.get k.toBytes) value opts bid))) := by
  have hnx : localNext C s (now, op) = settle s .metadata (s.putValue C now k value opts bid) := by
    cases op with
    | put | putWithBlock =>
      cases hop
      rfl
    | get | delete | markReplicated => cases hop
  rw [hnx]
  rcases putValue_cases C now s k value opts bid with ⟨err, h⟩ | ⟨_, rfl, hv, h⟩
  · exact .inl ⟨err, congrArg (settle s _) h⟩
  · exact .inr ⟨hv, congrArg (settle s _) h⟩

theorem effect_of_next (C : Crypto) (s : LocalStorage) (c : Int64 × LocalOp) :
    Effect C s c (localNext C s c).2 := by
  obtain ⟨now, op⟩ := c
  cases op with
  | put k value opts =>
    show Effect C s _ (settle s _ (s.putValue C now k value opts none)).2
    rcases putValue_cases C now s k value opts none with ⟨err, h⟩ | ⟨_, hr, hv, h⟩
    · rw [h]
      exact .same _
    · rw [h]
      exact .put hr hv
  | putWithBlock k value b opts =>
    show Effect C s _ (settle s _ (s.putValue C now k value opts (some b))).2
    rcases putValue_cases C now s k value opts (some b) with ⟨err, h⟩ | ⟨_, hr, hv, h⟩
    · rw [h]
      exact .same _
    · rw [h]
      exact .putWithBlock hr hv
  | get k =>
    show Effect C s _ (settle s _ (s.get C now k)).2
    cases hr : s.data.get k.toBytes with
    | none =>
      rw [get_of_none C hr]
      exact .same _
    | some e =>
      rw [get_of_some C hr]
      by_cases he : e.value.metadata.isExpired now = true
      · rw [if_pos he]
        exact .expired hr he
      · rw [if_neg he]
        exact .same _
  | delete k =>
    show Effect C s _ (settle s _ (s.deleteEntry C k)).2
    cases hr : s.data.get k.toBytes with
    | none =>
      rw [LocalStorage.deleteEntry, LocalStorage.getEntry, hr]
      exact .same _
    | some e =>
      rw [deleteEntry_of_some hr]
      exact .delete hr
  | markReplicated k nid =>
    show Effect C s _ (settle s _ ((s.markReplicated C now k nid).map _)).2
    unfold LocalStorage.markReplicated LocalStorage.getEntry
    cases hr : s.data.get k.toBytes with
    | none => exact .same _
    | some e =>
      show Effect C s _ (s.written C k (s.data.get k.toBytes)
        { e with replication := e.replication.markReplicated now nid })
      rw [hr]
      exact .markReplicated hr

theorem Effect.data_of_ne {s' : LocalStorage} {b : Bytes} (h : Effect C s c s')
    (hb : b ≠ c.2.key.toBytes) :
    s'.data.get b = s.data.get b := by
  cases h with
  | same => rfl
  | put _ _ | putWithBlock _ _ | markReplicated _ => exact OrdMap.get_insert_of_ne _ hb _
  | expired _ _ | delete _ => exact OrdMap.get_erase_of_ne _ hb

theorem Effect.index_of_ne {s' : LocalStorage} {x : Bytes} (h : Effect C s c s')
    (hx : x ≠ c.2.key.indexKey) : s'.index.get x = s.index.get x := by
  cases h with
  | same => rfl
  | put _ _ | putWithBlock _ _ | markReplicated _ => exact OrdMap.get_insert_of_ne _ hx _
  | expired _ _ | delete _ => exact OrdMap.get_erase_of_ne _ hx

end

end Platform.Storage
