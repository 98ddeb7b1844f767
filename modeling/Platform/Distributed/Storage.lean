import Platform.Distributed.Entries
import Platform.Lib.Machine

/-!
# The store (`crates/storage/src/distributed.rs`)

A write is proposed, voted on and committed when half of the validators agree; entries that others
have committed are written directly.  A challenge can check a write with rules of its own, which see
a `WriteRequestInfo`.

* The clock (`Instant::now`, in nanoseconds) is an argument of each function that reads it.
* Operations of `sled` do not fail.  The statistics, which nothing reads back, are left out.

`keyed_run`: along every run each entry is stored under its own key.
-/

namespace Platform.Distributed
open Platform.Core Lib Chain
open scoped Lib.Bytewise
open Storage (colon ColonFree)

/-! ## write operations -/

structure WriteOp where
  opId : Bytes32
  entry : StoredEntry
  initiator : String
  proposedBlock : UInt64
  votesYes : HashSet String
  votesNo : HashSet String
  committed : Bool
deriving DecidableEq

/-- `n as f64`, which is an integer again -/
def nearestF64 (n : Nat) : Nat :=
  if n < 2 ^ 53 then n
  else
    let unit := 2 ^ (n.log2 - 52)
    let rest := n % unit
    -- to the nearer multiple of the unit, and to the even one in the middle
    if 2 * rest < unit ∨ (2 * rest = unit ∧ n / unit % 2 = 0) then n - rest else n - rest + unit

/-- `((total_validators as f64) * CONSENSUS_THRESHOLD).ceil() as usize`; the product with one half
is exact -/
def required (totalValidators : UInt64) : Nat := (nearestF64 totalValidators.toNat + 1) / 2

namespace WriteOp

def new (C : Crypto) (entry : StoredEntry) (initiator : String) (block : UInt64) : WriteOp where
  opId := C.sha256 (utf8 entry.header.challengeId ++ utf8 entry.header.key ++
    entry.header.valueHash.bytes ++ leBytes 8 block.toNat)
  entry := entry
  initiator := initiator
  proposedBlock := block
  -- the initiator has voted for it
  votesYes := (∅ : HashSet String).insert initiator ()
  votesNo := ∅
  committed := false

def vote (op : WriteOp) (validator : String) (approve : Bool) : WriteOp :=
  if approve then
    { op with
      votesYes := op.votesYes.insert validator ()
      votesNo := op.votesNo.erase validator }
  else
    { op with
      votesNo := op.votesNo.insert validator ()
      votesYes := op.votesYes.erase validator }

@[simp] theorem entry_vote (op : WriteOp) (validator : String) (ap : Bool) :
    (op.vote validator ap).entry = op.entry := by
  cases ap <;> rfl

def checkConsensus (op : WriteOp) (totalValidators : UInt64) : Option Bool :=
  if required totalValidators ≤ op.votesYes.size then some true
  else if required totalValidators ≤ op.votesNo.size then some false
  else none

/-- the entry as `commit_write` stores it -/
def committedEntry (op : WriteOp) : StoredEntry :=
  { op.entry with header := { op.entry.header with consensusReached := true } }

end WriteOp

/-! ## the store -/

structure DistributedStorage where
  dataTree : OrdMap Bytes StoredEntry
  indexTree : OrdMap Bytes Bytes
  pendingOps : HashMap Bytes32 WriteOp
  currentBlock : UInt64
  totalValidators : UInt64
  ourValidator : String
  /-- entries with the time at which they were put here -/
  cache : HashMap Bytes (StoredEntry × Nat)

structure WriteRequestInfo where
  category : Category
  challengeId : String
  key : String
  value : Bytes
  size : Nat
  creator : String
  creatorStake : UInt64
  block : UInt64
  isUpdate : Bool
  previousHash : Option Bytes32
  writesThisEpoch : Nat
  categoryEntryCount : Nat
  totalValidators : UInt64
deriving DecidableEq

inductive WriteValidationResult where
  | accept
  | reject (reason : String)

namespace DistributedStorage

/-- `open`, on an empty database -/
def new (ourValidator : String) : DistributedStorage := ⟨∅, ∅, ∅, 0, 1, ourValidator, ∅⟩

def cacheTtlSecs : Nat := 60

def elapsedSecs (now cachedAt : Nat) : Nat := (now - cachedAt) / 10 ^ 9

variable (now : Nat) (s : DistributedStorage) (category : Category) (challengeId key : String)
  (entry : StoredEntry)

def setBlock (block : UInt64) : DistributedStorage :=
  { s with currentBlock := block }

def setValidators (count : UInt64) : DistributedStorage :=
  { s with totalValidators := count }

def updateIndexes (header : EntryHeader) (tree : OrdMap Bytes Bytes) : OrdMap Bytes Bytes :=
  let idxKey := header.challengeId ++ ":" ++ header.category.asU8.repr ++ ":" ++ header.key
  let creatorKey := "creator:" ++ header.creator ++ ":" ++ header.challengeId ++ ":" ++ header.key
  (tree.insert (utf8 idxKey) (utf8 header.key)).insert (utf8 creatorKey) (utf8 header.key)

def put : DistributedStorage :=
  { s with
    dataTree := s.dataTree.insert entry.storageKey entry
    indexTree := updateIndexes entry.header s.indexTree
    cache := s.cache.insert entry.storageKey (entry, now) }

def commitWrite (op : WriteOp) : DistributedStorage :=
  s.put now op.committedEntry

def writeDirect : DistributedStorage :=
  s.put now entry

/-- the common end of the two ways to propose a write -/
def propose (C : Crypto) (now : Nat) (s : DistributedStorage) (entry : StoredEntry) :
    WriteOp × DistributedStorage :=
  let op := WriteOp.new C entry s.ourValidator s.currentBlock
  match op.checkConsensus s.totalValidators with
  | some true => (op, s.commitWrite now op)
  | _ => (op, { s with pendingOps := s.pendingOps.insert op.opId op })

def proposeWrite (C : Crypto) (compress : Bytes → Bytes) (now : Nat) (s : DistributedStorage)
    (category : Category) (challengeId key : String) (value : Value) (ttlBlocks : Option UInt64) :
    Except StorageError WriteOp × DistributedStorage :=
  match StoredEntry.new C compress category challengeId key value s.ourValidator s.currentBlock
      ttlBlocks with
  | .error e => (.error e, s)
  | .ok entry =>
    let (op, s) := s.propose C now entry
    (.ok op, s)

/-- `scan_prefix` of the data tree -/
def scan (p : Bytes) : List (Bytes × StoredEntry) :=
  s.dataTree.entries.filter fun e => p.isPrefixOf e.1

def countCategory (challengeId : String) (category : Category) : Nat :=
  (s.scan (utf8 (challengeId ++ ":" ++ (category.tag ++ ":")))).length

/-- the key of `get_raw` -/
def rawKey : Bytes :=
  utf8 (challengeId ++ ":" ++ (category.tag ++ ":") ++ ":" ++ key)

def getRaw : Option StoredEntry := s.dataTree.get (rawKey category challengeId key)

/-- the request that `propose_write_validated` hands to the rules -/
def requestInfo (value : Value) (creatorStake : UInt64) : Except StorageError WriteRequestInfo :=
  match value.json with
  | .error e => .error (.serialization e)
  | .ok bytes =>
    let existing := s.getRaw category challengeId key
    .ok
      { category := category
        challengeId := challengeId
        key := key
        value := bytes
        size := bytes.length
        creator := s.ourValidator
        creatorStake := creatorStake
        block := s.currentBlock
        isUpdate := existing.isSome
        previousHash := existing.map fun e => e.header.valueHash
        writesThisEpoch := 0
        categoryEntryCount := s.countCategory challengeId category
        totalValidators := s.totalValidators }

def proposeWriteValidated (C : Crypto) (compress : Bytes → Bytes) (now : Nat)
    (s : DistributedStorage) (category : Category) (challengeId key : String) (value : Value)
    (creatorStake : UInt64) (validate : WriteRequestInfo → WriteValidationResult) :
    Except StorageError WriteOp × DistributedStorage :=
  match s.requestInfo category challengeId key value creatorStake with
  | .error e => (.error e, s)
  | .ok info =>
    match validate info with
    | .reject reason => (.error (.validationFailed reason), s)
    | .accept => s.proposeWrite C compress now category challengeId key value none

def voteWrite (opId : Bytes32) (validator : String) (approve : Bool) :
    Option Bool × DistributedStorage :=
  match s.pendingOps.lookup opId with
  | none => (none, s)
  | some op =>
    let op := op.vote validator approve
    match op.checkConsensus s.totalValidators with
    | none => (none, { s with pendingOps := s.pendingOps.insert opId op })
    | some true =>
      (some true, commitWrite now { s with pendingOps := s.pendingOps.erase opId } op)
    | some false => (some false, { s with pendingOps := s.pendingOps.erase opId })

def get (now : Nat) (s : DistributedStorage) (category : Category) (challengeId key : String) :
    Option StoredEntry × DistributedStorage :=
  let storageKey := buildKey category challengeId key
  let cached := s.cache.lookup storageKey
  match cached.filter fun c => elapsedSecs now c.2 < cacheTtlSecs with
  | some (entry, _) => (some entry, s)
  | none =>
    match s.dataTree.get storageKey with
    | none => (none, s)
    | some entry => (some entry, { s with cache := s.cache.insert storageKey (entry, now) })

def cleanupExpired : Nat × DistributedStorage :=
  let expired := (s.dataTree.entries.filter fun p => p.2.isExpired s.currentBlock).map Prod.fst
  (expired.length,
    { s with
      dataTree := expired.foldl OrdMap.erase s.dataTree
      cache := (expired.foldl (fun c k => c.erase k) s.cache).retain fun _ c =>
        !c.1.isExpired s.currentBlock && decide (elapsedSecs now c.2 < cacheTtlSecs * 2)
      pendingOps := s.pendingOps.retain fun _ op =>
        decide (s.currentBlock - op.proposedBlock < 100) })

end DistributedStorage

/-! ## runs -/

inductive StorageOp where
  | setBlock (block : UInt64)
  | setValidators (count : UInt64)
  | proposeWrite (category : Category) (challengeId key : String) (value : Value)
      (ttlBlocks : Option UInt64)
  | proposeWriteValidated (category : Category) (challengeId key : String) (value : Value)
      (creatorStake : UInt64) (validate : WriteRequestInfo → WriteValidationResult)
  | voteWrite (opId : Bytes32) (validator : String) (approve : Bool)
  | writeDirect (entry : StoredEntry)
  | get (category : Category) (challengeId key : String)
  | cleanupExpired

/-- one operation at a time of the clock -/
def storageNext (C : Crypto) (compress : Bytes → Bytes) (s : DistributedStorage) :
    Nat × StorageOp → Unit × DistributedStorage
  | (_, .setBlock block) => ((), s.setBlock block)
  | (_, .setValidators count) => ((), s.setValidators count)
  | (now, .proposeWrite category challengeId key value ttlBlocks) =>
    ((), (s.proposeWrite C compress now category challengeId key value ttlBlocks).2)
  | (now, .proposeWriteValidated category challengeId key value creatorStake validate) =>
    ((), (s.proposeWriteValidated C compress now category challengeId key value creatorStake
      validate).2)
  | (now, .voteWrite opId validator approve) => ((), (s.voteWrite now opId validator approve).2)
  | (now, .writeDirect entry) => ((), s.writeDirect now entry)
  | (now, .get category challengeId key) => ((), (s.get now category challengeId key).2)
  | (now, .cleanupExpired) => ((), (s.cleanupExpired now).2)

abbrev StorageCall := Call DistributedStorage (Nat × StorageOp) Unit

/-! ## every entry is under its own key -/

section
variable {P : String → String → String → Prop} {validator : String}

def EntryHeader.Names (P : String → String → String → Prop) (h : EntryHeader) : Prop :=
  P h.creator h.challengeId h.key

/-- What the operation of a validator's node stores has names that satisfy `P`. -/
def StorageOp.Names (P : String → String → String → Prop) (validator : String) : StorageOp → Prop
  | .proposeWrite _ challengeId key _ _ => P validator challengeId key
  | .proposeWriteValidated _ challengeId key _ _ _ => P validator challengeId key
  | .writeDirect entry => entry.header.Names P
  | _ => True

structure Keyed (P : String → String → String → Prop) (validator : String)
    (s : DistributedStorage) : Prop where
  ours : s.ourValidator = validator
  stored : ∀ {k e}, s.dataTree.get k = some e → k = e.storageKey ∧ e.header.Names P
  pending : ∀ {id op}, s.pendingOps.lookup id = some op → op.entry.header.Names P

theorem keyed_new (P : String → String → String → Prop) (validator : String) :
    Keyed P validator (.new validator) where
  ours := rfl
  stored := fun h => nomatch h
  pending := fun h => nomatch h

namespace Keyed
variable {C : Crypto} {cmp : Bytes → Bytes} {s : DistributedStorage} {now : Nat}
  {entry : StoredEntry} {op : WriteOp} {id : Bytes32} {cat : Category}
  {cid key : String} {val : Value}

variable (h : Keyed P validator s)

section
include h

theorem put (he : entry.header.Names P) : Keyed P validator (s.put now entry) where
  ours := h.ours
  stored := by
    intro k e hg
    rw [DistributedStorage.put, OrdMap.get_insert] at hg
    by_cases hk : k = entry.storageKey
    · rw [if_pos hk, Option.some_inj] at hg
      subst hg
      exact ⟨hk, he⟩
    · rw [if_neg hk] at hg
      exact h.stored hg
  pending := h.pending

theorem commitWrite (hop : op.entry.header.Names P) :
    Keyed P validator (s.commitWrite now op) := h.put hop

theorem pend (hop : op.entry.header.Names P) :
    Keyed P validator { s with pendingOps := s.pendingOps.insert id op } where
  ours := h.ours
  stored := h.stored
  pending := by
    intro id' op' hop'
    rcases (HashMap.lookup_insert_iff _ _ _ _ _).mp hop' with ⟨_, rfl⟩ | ⟨_, hop'⟩
    · exact hop
    · exact h.pending hop'

theorem drop : Keyed P validator { s with pendingOps := s.pendingOps.erase id } where
  ours := h.ours
  stored := h.stored
  pending := fun hop => h.pending ((HashMap.lookup_erase_iff _ _ _ _).mp hop).2

theorem propose (he : entry.header.Names P) : Keyed P validator (s.propose C now entry).2 := by
  unfold DistributedStorage.propose
  dsimp only
  split
  · exact h.commitWrite he
  · exact h.pend he

theorem proposeWrite (hP : P validator cid key) (ttl : Option UInt64) :
    Keyed P validator (s.proposeWrite C cmp now cat cid key val ttl).2 := by
  unfold DistributedStorage.proposeWrite
  split
  · exact h
  · next entry hen =>
    obtain ⟨_, hid, hk, hcr⟩ := header_new hen
    apply h.propose
    rw [EntryHeader.Names, hid, hk, hcr, h.ours]
    exact hP

theorem proposeWriteValidated (hP : P validator cid key) (cs : UInt64)
    (vd : WriteRequestInfo → WriteValidationResult) :
    Keyed P validator
      (s.proposeWriteValidated C cmp now cat cid key val cs vd).2 := by
  unfold DistributedStorage.proposeWriteValidated
  split
  · exact h
  · split
    · exact h
    · exact h.proposeWrite hP none

theorem voteWrite (voter : String) (ap : Bool) :
    Keyed P validator (s.voteWrite now id voter ap).2 := by
  unfold DistributedStorage.voteWrite
  split
  · exact h
  · next op hop =>
    have hvt : (op.vote voter ap).entry.header.Names P := by
      rw [WriteOp.entry_vote]
      exact h.pending hop
    dsimp only
    split
    · exact h.pend hvt
    · exact h.drop.commitWrite hvt
    · exact h.drop

theorem get : Keyed P validator (s.get now cat cid key).2 := by
  unfold DistributedStorage.get
  dsimp only
  split
  · exact h
  · split
    · exact h
    · exact ⟨h.ours, h.stored, h.pending⟩

theorem cleanupExpired : Keyed P validator (s.cleanupExpired now).2 where
  ours := h.ours
  stored := fun hg => h.stored (OrdMap.get_of_foldl_erase hg)
  pending := fun hop => h.pending ((HashMap.lookup_retain_iff _ _ _ _).mp hop).1

end

end Keyed

variable {C : Crypto} {cmp : Bytes → Bytes} {s : DistributedStorage}

theorem keyed_step (h : Keyed P validator s) (inp : Nat × StorageOp)
    (hnm : inp.2.Names P validator) :
    Keyed P validator (storageNext C cmp s inp).2 := by
  obtain ⟨now, op⟩ := inp
  cases op with
  | setBlock block | setValidators count => exact ⟨h.ours, h.stored, h.pending⟩
  | proposeWrite category challengeId key value ttl => exact h.proposeWrite hnm ttl
  | proposeWriteValidated category challengeId key value cs vd =>
    exact h.proposeWriteValidated hnm cs vd
  | voteWrite opId voter ap => exact h.voteWrite voter ap
  | writeDirect entry => exact h.put hnm
  | get category challengeId key => exact h.get
  | cleanupExpired => exact h.cleanupExpired

theorem keyed_run {log : List StorageCall}
    (hrun : MachineRun (storageNext C cmp) (.new validator) log s)
    (hnm : ∀ c ∈ log, c.input.2.Names P validator) : Keyed P validator s := by
  refine Run.guarded (keyed_new P validator) ?_ hrun hnm
  intro s c s' h hg hstep
  rw [hstep.after_eq]
  exact keyed_step h c.input hg

end

/-! ## the entries of a challenge -/

section
variable {s : DistributedStorage} {who : String}

/-- Challenge ids contain no `:`. -/
def IdColonFree (_ challengeId _ : String) : Prop := ColonFree challengeId

namespace DistributedStorage

def stored (s : DistributedStorage) (category : Category) (challengeId key : String) :
    Option StoredEntry := s.dataTree.get (buildKey category challengeId key)

def entryCount (s : DistributedStorage) (category : Category) (challengeId : String) : Nat :=
  (s.dataTree.entries.filter fun p =>
    p.2.header.category = category ∧ p.2.header.challengeId = challengeId).length

end DistributedStorage

end

end Platform.Distributed
