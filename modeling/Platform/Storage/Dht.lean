import Mathlib.Data.List.Sort
import Platform.Storage.Local
import Platform.Storage.Replication

/-!
# The storage over a distributed hash table (`dht.rs`)

A local storage, a routing table and a network.  The network is a parameter: `DhtNetworkHandler`
says what it answers and how its own state moves, so that every pattern of failures is one of its
values.  A call returns its answer with the storage and the network after it, also when the answer
is an error.
-/

namespace Platform.Storage
open Platform.Core Lib Chain LocalStorage
open scoped Lib.Bytewise

/-! ## the routing table -/

structure DhtNode where
  id : String
  address : String
  isOnline : Bool
deriving DecidableEq

def DhtNode.new (id address : String) : DhtNode := ⟨id, address, true⟩

def xorDistance (a b : Bytes32) : Bytes := List.zipWith (· ^^^ ·) a.bytes b.bytes

def hashNodeId (C : Crypto) (nodeId : String) : Bytes32 := C.sha256 (utf8 nodeId)

structure RoutingTable where
  nodes : HashMap String DhtNode
  own_id : ∀ nodeId node, nodes.lookup nodeId = some node → node.id = nodeId

namespace RoutingTable

def new : RoutingTable := ⟨∅, fun _ _ h => by simp at h⟩

def addNode (table : RoutingTable) (node : DhtNode) : RoutingTable where
  nodes := table.nodes.insert node.id node
  own_id nodeId node' h := by
    rcases (HashMap.lookup_insert_iff _ _ _ _ _).mp h with ⟨rfl, rfl⟩ | ⟨_, hold⟩
    · rfl
    · exact table.own_id nodeId node' hold

def markOffline (table : RoutingTable) (nodeId : String) : RoutingTable where
  nodes := table.nodes.mapValues fun node =>
    if node.id = nodeId then { node with isOnline := false } else node
  own_id nodeId' node' h := by
    rw [HashMap.lookup_mapValues, Option.map_eq_some_iff] at h
    obtain ⟨node, hnode, rfl⟩ := h
    rw [← table.own_id nodeId' node hnode]
    split <;> rfl

def findClosest (C : Crypto) (table : RoutingTable) (keyHash : Bytes32) (count : Nat) :
    List DhtNode :=
  (table.nodes.values.insertionSort fun a b =>
    xorDistance (hashNodeId C a.id) keyHash ≤ xorDistance (hashNodeId C b.id) keyHash).take count

end RoutingTable

/-! ## the storage -/

structure DhtNetworkHandler (ν : Type) where
  getValue : ν → DhtNode → StorageKey → StorageResult (Option StoredValue) × ν
  putValue : ν → DhtNode → StorageKey → StoredValue → StorageResult Unit × ν
  deleteValue : ν → DhtNode → StorageKey → StorageResult Bool × ν

/-- What the clock shows during one call: when the local storage is first used, when it is used
again, and when a node has answered. -/
structure Clock where
  start : Int64
  again : Int64
  atNode : String → Int64

/-- `PutOptions` with the two fields that only this storage reads -/
structure DhtPutOptions extends PutOptions where
  quorumWrite : Bool
  quorumSize : Option Nat
deriving DecidableEq

def DhtPutOptions.localOptions (options : DhtPutOptions) : PutOptions :=
  { options.toPutOptions with localOnly := true }

structure GetOptions where
  localOnly : Bool
  quorumRead : Bool
  quorumSize : Option Nat
deriving DecidableEq

structure DhtStorage where
  localStore : LocalStorage
  routingTable : RoutingTable
  replicationConfig : ReplicationConfig
  dhtEnabled : Bool

namespace DhtStorage
section
variable {ν : Type} (C : Crypto) (H : DhtNetworkHandler ν)

def withNetwork (s : LocalStorage) (config : ReplicationConfig) : DhtStorage :=
  ⟨s, .new, config, true⟩

def addNode (d : DhtStorage) (node : DhtNode) : DhtStorage :=
  { d with routingTable := d.routingTable.addNode node }

def markOffline (d : DhtStorage) (nodeId : String) : DhtStorage :=
  { d with routingTable := d.routingTable.markOffline nodeId }

variable (clock : Clock) (d : DhtStorage) (net : ν) (k : StorageKey)

def withLocal (s : LocalStorage) : DhtStorage := { d with localStore := s }

def closestNodes : List DhtNode :=
  d.routingTable.findClosest C (k.hash C) d.replicationConfig.replicationFactor

/-- the loop of `quorum_read`; it stops when enough values are found -/
def readLoop (k : StorageKey) (quorumSize : Nat) :
    List DhtNode → List StoredValue → DhtStorage → ν → List StoredValue × DhtStorage × ν
  | [], values, d, net => (values, d, net)
  | node :: nodes, values, d, net =>
    match H.getValue net node k with
    | (.ok (some v), net') =>
      if quorumSize ≤ (values ++ [v]).length then (values ++ [v], d, net')
      else readLoop k quorumSize nodes (values ++ [v]) d net'
    | (.ok none, net') =>
      if quorumSize ≤ values.length then (values, d, net')
      else readLoop k quorumSize nodes values d net'
    | (.error _, net') =>
      if quorumSize ≤ values.length then (values, d.markOffline node.id, net')
      else readLoop k quorumSize nodes values (d.markOffline node.id) net'

def quorumRead (now : Int64) (d : DhtStorage) (net : ν) (k : StorageKey) (quorumSize : Nat) :
    StorageResult (Option StoredValue) × DhtStorage × ν :=
  match d.localStore.get C now k with
  | .error err => (.error err, d, net)
  | .ok (localResult, s) =>
    if d.dhtEnabled = false then (.ok localResult, d.withLocal s, net)
    else if d.closestNodes C k = [] then (.ok localResult, d.withLocal s, net)
    else
      match readLoop H k quorumSize (d.closestNodes C k) localResult.toList (d.withLocal s) net with
      | (values, d', net') => (.ok (newest values), d', net')

/-- the loop of `quorum_write`; the answers are counted, and a mark that fails ends it -/
def writeLoop (clock : Clock) (k : StorageKey) (value : StoredValue) :
    List DhtNode → Nat → DhtStorage → ν → StorageResult Nat × DhtStorage × ν
  | [], count, d, net => (.ok count, d, net)
  | node :: nodes, count, d, net =>
    match H.putValue net node k value with
    | (.ok _, net') =>
      match d.localStore.markReplicated C (clock.atNode node.id) k node.id with
      | .ok s => writeLoop clock k value nodes (count + 1) (d.withLocal s) net'
      | .error err => (.error err, d, net')
    | (.error _, net') => writeLoop clock k value nodes count (d.markOffline node.id) net'

def quorumWrite (value : StoredValue) (quorumSize : Nat) : StorageResult Nat × DhtStorage × ν :=
  if d.dhtEnabled = false then (.ok 1, d, net)
  else
    match writeLoop C H clock k value (d.closestNodes C k) 1 d net with
    | (.error err, d', net') => (.error err, d', net')
    | (.ok count, d', net') =>
      if quorumSize ≤ count then (.ok count, d', net')
      else (.error (.quorumNotReached quorumSize count), d', net')

def get (clock : Clock) (d : DhtStorage) (net : ν) (k : StorageKey) (options : GetOptions) :
    StorageResult (Option StoredValue) × DhtStorage × ν :=
  if options.localOnly = true ∨ d.dhtEnabled = false then
    match d.localStore.get C clock.start k with
    | .error err => (.error err, d, net)
    | .ok (localResult, s) => (.ok localResult, d.withLocal s, net)
  else if options.quorumRead = true then
    d.quorumRead C H clock.start net k (options.quorumSize.getD d.replicationConfig.readQuorum)
  else
    match d.localStore.get C clock.start k with
    | .error err => (.error err, d, net)
    | .ok (some v, s) => (.ok (some v), d.withLocal s, net)
    | .ok (none, s) => (d.withLocal s).quorumRead C H clock.again net k 1

/-- what `put` and `put_with_block` do after the local write -/
def replicate (stored : StoredValue) (options : DhtPutOptions) :
    StorageResult ValueMetadata × DhtStorage × ν :=
  if options.localOnly = true ∨ d.dhtEnabled = false then (.ok stored.metadata, d, net)
  else if options.quorumWrite = true then
    match d.quorumWrite C H clock net k stored
        (options.quorumSize.getD d.replicationConfig.writeQuorum) with
    | (.ok _, d', net') => (.ok stored.metadata, d', net')
    | (.error err, d', net') => (.error err, d', net')
  else
    match d.quorumWrite C H clock net k stored 1 with
    | (_, d', net') => (.ok stored.metadata, d', net')

/-- the common body of `put` and `put_with_block`; nothing takes the local write back -/
def putWith (value : Bytes) (options : DhtPutOptions) (blockId : Option UInt64) :
    StorageResult ValueMetadata × DhtStorage × ν :=
  match d.localStore.putValue C clock.start k value options.localOptions blockId with
  | .error err => (.error err, d, net)
  | .ok (metadata, s) => (d.withLocal s).replicate C H clock net k ⟨value, metadata⟩ options

def put (value : Bytes) (options : DhtPutOptions) : StorageResult ValueMetadata × DhtStorage × ν :=
  d.putWith C H clock net k value options none

def putWithBlock (value : Bytes) (blockId : UInt64) (options : DhtPutOptions) :
    StorageResult ValueMetadata × DhtStorage × ν :=
  d.putWith C H clock net k value options (some blockId)

def delete (d : DhtStorage) (net : ν) (k : StorageKey) : StorageResult Bool × DhtStorage × ν :=
  match d.localStore.delete C k with
  | .error err => (.error err, d, net)
  | .ok (deleted, s) =>
    if d.dhtEnabled = false then (.ok deleted, d.withLocal s, net)
    else
      (.ok deleted, d.withLocal s,
        (d.closestNodes C k).foldl (fun net node => (H.deleteValue net node k).2) net)

end
end DhtStorage

/-! ## calls -/

inductive DhtOp where
  | put (k : StorageKey) (value : Bytes) (options : DhtPutOptions)
  | putWithBlock (k : StorageKey) (value : Bytes) (blockId : UInt64) (options : DhtPutOptions)
  | get (k : StorageKey) (options : GetOptions)
  | delete (k : StorageKey)
deriving DecidableEq

def DhtOp.key : DhtOp → StorageKey
  | .put k _ _ | .putWithBlock k _ _ _ | .get k _ | .delete k => k

inductive DhtOut where
  | metadata (m : ValueMetadata)
  | value (v : Option StoredValue)
  | deleted (existed : Bool)
deriving DecidableEq

/-- the answer of a call as an output -/
def answered {α ν : Type} (out : α → DhtOut) (r : StorageResult α × DhtStorage × ν) :
    StorageResult DhtOut × DhtStorage × ν := (r.1.map out, r.2)

/-- one call -/
def dhtNext {ν : Type} (C : Crypto) (H : DhtNetworkHandler ν) (clock : Clock) (d : DhtStorage)
    (net : ν) : DhtOp → StorageResult DhtOut × DhtStorage × ν
  | .put k value options => answered .metadata (d.put C H clock net k value options)
  | .putWithBlock k value b options =>
    answered .metadata (d.putWithBlock C H clock net k value b options)
  | .get k options => answered .value (d.get C H clock net k options)
  | .delete k => answered .deleted (d.delete C H net k)

/-! ## what the local storage keeps -/

def LocalStorage.valueAt (s : LocalStorage) (b : Bytes) : Option StoredValue :=
  (s.data.get b).map LocalEntry.value

/-- The storages differ in one entry at most, and there they have the same value. -/
structure SameValues (b : Bytes) (s s' : LocalStorage) : Prop where
  value : s'.valueAt b = s.valueAt b
  other : ∀ x, x ≠ b → s'.data.get x = s.data.get x

theorem SameValues.refl (b : Bytes) (s : LocalStorage) : SameValues b s s := ⟨rfl, fun _ _ => rfl⟩

theorem SameValues.trans {b : Bytes} {s s' s'' : LocalStorage} (h : SameValues b s s')
    (h' : SameValues b s' s'') : SameValues b s s'' :=
  ⟨h'.value.trans h.value, fun x hx => (h'.other x hx).trans (h.other x hx)⟩

def StorageError.IsLocal (err : StorageError) : Prop :=
  ∀ required received, err ≠ .quorumNotReached required received

section
variable {C : Crypto} {s s' : LocalStorage} {k : StorageKey} {now : Int64} {err : StorageError}

theorem exists_get (C : Crypto) (s : LocalStorage) (now : Int64) (k : StorageKey) :
    ∃ r, s.get C now k = .ok r := by
  cases hr : s.data.get k.toBytes with
  | none => exact ⟨_, get_of_none C hr now⟩
  | some e =>
    rw [get_of_some C hr]
    split <;> exact ⟨_, rfl⟩

theorem exists_delete (C : Crypto) (s : LocalStorage) (k : StorageKey) :
    ∃ r, s.delete C k = .ok r := by
  unfold delete deleteEntry getEntry
  cases s.data.get k.toBytes <;> exact ⟨_, rfl⟩

theorem exists_markReplicated (C : Crypto) (s : LocalStorage) (now : Int64) (k : StorageKey)
    (nid : String) :
    ∃ s', s.markReplicated C now k nid = .ok s' ∧ SameValues k.toBytes s s' := by
  unfold LocalStorage.markReplicated getEntry
  cases hr : s.data.get k.toBytes with
  | none => exact ⟨s, rfl, .refl _ _⟩
  | some e =>
    refine ⟨_, rfl, ?_, fun x hx => OrdMap.get_insert_of_ne _ hx _⟩
    show ((s.data.insert k.toBytes _).get k.toBytes).map LocalEntry.value = _
    rw [OrdMap.get_insert_self, LocalStorage.valueAt, hr]
    rfl

theorem isLocal_of_checkVersion {old : Option LocalEntry} {expected : Option UInt64}
    (h : checkVersion old expected = .error err) : err.IsLocal := by
  intro required received heq
  subst heq
  unfold checkVersion at h
  split at h
  · cases h
  · split at h <;> split at h <;> cases h

theorem isLocal_of_putValue {val : Bytes} {opts : PutOptions} {bid : Option UInt64}
    (h : s.putValue C now k val opts bid = .error err) : err.IsLocal := by
  change (checkVersion (s.data.get k.toBytes) opts.expectedVersion >>= _) = _ at h
  cases hv : checkVersion (s.data.get k.toBytes) opts.expectedVersion with
  | error err' =>
    rw [hv] at h
    cases h
    exact isLocal_of_checkVersion hv
  | ok _ =>
    rw [hv] at h
    cases h

end

/-! ## a put that finds too few nodes -/

section
variable {ν : Type} {C : Crypto} {H : DhtNetworkHandler ν} {clk : Clock} {k : StorageKey}

theorem writeLoop_spec (C : Crypto) (H : DhtNetworkHandler ν) (clk : Clock) (k : StorageKey)
    (val : StoredValue) (ns : List DhtNode) (cnt : Nat) (d : DhtStorage) (net : ν) :
    SameValues k.toBytes d.localStore
      (DhtStorage.writeLoop C H clk k val ns cnt d net).2.1.localStore := by
  induction ns generalizing cnt d net with
  | nil => exact .refl _ _
  | cons node ns ih =>
    rw [DhtStorage.writeLoop]
    split
    · obtain ⟨s, hm, hsv⟩ := exists_markReplicated C d.localStore (clk.atNode node.id) k node.id
      rw [hm]
      exact hsv.trans (ih (cnt + 1) (d.withLocal s) _)
    · exact ih cnt (d.markOffline node.id) _

theorem quorumWrite_spec (C : Crypto) (H : DhtNetworkHandler ν) (clk : Clock) (k : StorageKey)
    (d : DhtStorage) (net : ν) (val : StoredValue) (qs : Nat) :
    SameValues k.toBytes d.localStore (d.quorumWrite C H clk net k val qs).2.1.localStore := by
  have hlp := writeLoop_spec C H clk k val (d.closestNodes C k) 1 d net
  unfold DhtStorage.quorumWrite
  by_cases hof : d.dhtEnabled = false
  · rw [if_pos hof]
    exact .refl _ _
  · rw [if_neg hof]
    split
    · next hrs =>
      rw [hrs] at hlp
      exact hlp
    · next hrs =>
      rw [hrs] at hlp
      split <;> exact hlp

theorem replicate_spec (C : Crypto) (H : DhtNetworkHandler ν) (clk : Clock) (k : StorageKey)
    (d : DhtStorage) (net : ν) (sd : StoredValue) (opts : DhtPutOptions) :
    SameValues k.toBytes d.localStore (d.replicate C H clk net k sd opts).2.1.localStore := by
  unfold DhtStorage.replicate
  split
  · exact .refl _ _
  · split
    · have hwr := quorumWrite_spec C H clk k d net sd
        (opts.quorumSize.getD d.replicationConfig.writeQuorum)
      split <;> next hrs =>
        rw [hrs] at hwr
        exact hwr
    · exact quorumWrite_spec C H clk k d net sd 1

theorem putWith_cases (C : Crypto) (H : DhtNetworkHandler ν) (clk : Clock) (d : DhtStorage)
    (net : ν) (k : StorageKey) (val : Bytes) (options : DhtPutOptions)
    (bid : Option UInt64) :
    (∃ err, err.IsLocal ∧ d.putWith C H clk net k val options bid = (.error err, d, net)) ∨
    ∃ e, e = LocalStorage.entryFor C clk.start d.localStore.nodeId
        (d.localStore.data.get k.toBytes) val options.localOptions bid ∧
      d.putWith C H clk net k val options bid =
        (d.withLocal (d.localStore.written C k (d.localStore.data.get k.toBytes) e)).replicate
          C H clk net k e.value options := by
  unfold DhtStorage.putWith
  rcases putValue_cases C clk.start d.localStore k val options.localOptions bid with
    ⟨err, hpt⟩ | ⟨_, rfl, -, hpt⟩
  · rw [hpt]
    exact .inl ⟨err, isLocal_of_putValue hpt, rfl⟩
  · rw [hpt]
    refine .inr ⟨_, rfl, ?_⟩
    have hdt := data_storedFor C clk.start d.localStore.nodeId
      (d.localStore.data.get k.toBytes) val options.localOptions
    exact congrArg (fun v => DhtStorage.replicate C H clk _ net k ⟨v, _⟩ options) hdt.symm

variable {d : DhtStorage} {err : StorageError} {net : ν}

theorem exists_quorumRead (C : Crypto) (H : DhtNetworkHandler ν) (now : Int64) (d : DhtStorage)
    (net : ν) (k : StorageKey) (qs : Nat) : ∃ v, (d.quorumRead C H now net k qs).1 = .ok v := by
  obtain ⟨r, hr⟩ := exists_get C d.localStore now k
  unfold DhtStorage.quorumRead
  rw [hr]
  dsimp only
  split
  · exact ⟨_, rfl⟩
  · split <;> exact ⟨_, rfl⟩

theorem exists_dhtGet (C : Crypto) (H : DhtNetworkHandler ν) (clk : Clock) (d : DhtStorage)
    (net : ν) (k : StorageKey) (opts : GetOptions) : ∃ v, (d.get C H clk net k opts).1 = .ok v := by
  obtain ⟨⟨lr, s⟩, hr⟩ := exists_get C d.localStore clk.start k
  unfold DhtStorage.get
  rw [hr]
  split
  · exact ⟨_, rfl⟩
  · split
    · exact exists_quorumRead C H clk.start d net k _
    · cases lr with
      | none => exact exists_quorumRead C H clk.again (d.withLocal s) net k 1
      | some v => exact ⟨_, rfl⟩

theorem exists_dhtDelete (C : Crypto) (H : DhtNetworkHandler ν) (d : DhtStorage) (net : ν)
    (k : StorageKey) : ∃ b, (d.delete C H net k).1 = .ok b := by
  obtain ⟨r, hr⟩ := exists_delete C d.localStore k
  unfold DhtStorage.delete
  rw [hr]
  dsimp only
  split <;> exact ⟨_, rfl⟩

theorem answered_error {α : Type} {out : α → DhtOut} {r : StorageResult α × DhtStorage × ν}
    (h : (answered out r).1 = .error err) : r.1 = .error err := by
  obtain ⟨res, rest⟩ := r
  cases res with
  | ok a => cases h
  | error err' =>
    cases h
    rfl

theorem answered_ok {α : Type} {out : α → DhtOut} {r : StorageResult α × DhtStorage × ν}
    {o : DhtOut} (h : (answered out r).1 = .ok o) : ∃ a, r.1 = .ok a ∧ out a = o := by
  obtain ⟨res, rest⟩ := r
  cases res with
  | ok a =>
    cases h
    exact ⟨a, rfl, rfl⟩
  | error err => cases h

/-- the time to live that a put asks for -/
def DhtOp.ttlSeconds : DhtOp → UInt64
  | .put _ _ options | .putWithBlock _ _ _ options => options.ttlSeconds
  | .get _ _ | .delete _ => 0

theorem quorumNotReached_inv {op : DhtOp} {required received : Nat}
    (h : (dhtNext C H clk d net op).1 = .error (.quorumNotReached required received)) :
    ∃ val opts bid, opts.ttlSeconds = op.ttlSeconds ∧ SameValues op.key.toBytes
      (d.localStore.written C op.key (d.localStore.data.get op.key.toBytes)
        (LocalStorage.entryFor C clk.start d.localStore.nodeId
          (d.localStore.data.get op.key.toBytes) val opts bid))
      (dhtNext C H clk d net op).2.1.localStore := by
  -- both puts have one body, only the block differs
  have hpt : ∀ k val opts bid,
      (d.putWith C H clk net k val opts bid).1 = .error (.quorumNotReached required received) →
      SameValues k.toBytes
        (d.localStore.written C k (d.localStore.data.get k.toBytes)
          (LocalStorage.entryFor C clk.start d.localStore.nodeId (d.localStore.data.get k.toBytes)
            val opts.localOptions bid))
        (d.putWith C H clk net k val opts bid).2.1.localStore := by
    intro k val opts bid hfl
    rcases putWith_cases C H clk d net k val opts bid with ⟨err, hlc, heq⟩ | ⟨e, rfl, heq⟩
    · rw [heq] at hfl
      cases hfl
      exact absurd rfl (hlc required received)
    · rw [heq]
      exact replicate_spec C H clk k (d.withLocal _) net _ opts
  cases op with
  | put k val opts =>
    exact ⟨val, opts.localOptions, none, rfl, hpt k val opts none (answered_error h)⟩
  | putWithBlock k val b opts =>
    exact ⟨val, opts.localOptions, some b, rfl, hpt k val opts (some b) (answered_error h)⟩
  | get k opts =>
    obtain ⟨v, hv⟩ := exists_dhtGet C H clk d net k opts
    cases hv.symm.trans (answered_error h)
  | delete k =>
    obtain ⟨b, hb⟩ := exists_dhtDelete C H d net k
    cases hb.symm.trans (answered_error h)

end

/-- a value that was created at `createdAt` and lives for `ttl` seconds has expired -/
def LifeOver (createdAt : Int64) (ttl : UInt64) (t : Int64) : Prop :=
  ttl ≠ 0 ∧ createdAt + ttl.toInt64 * 1000 < t

/-- Whether a key can be read at the time `t` neither before nor after a put at the time `now`: the
old entry has expired, and so has the new one, which keeps the time of creation of the old one and,
without one of its own, its time to live. -/
def UnreadAcross (now : Int64) (ttl : UInt64) (t : Int64) : Option LocalEntry → Prop
  | none => LifeOver now ttl t
  | some old => LifeOver old.value.metadata.createdAt old.value.metadata.ttlSeconds t ∧
      (ttl ≠ 0 → LifeOver old.value.metadata.createdAt ttl t)

section
variable {C : Crypto} {s s' : LocalStorage} {k : StorageKey} {t : Int64}

theorem isExpired_iff_lifeOver {m : ValueMetadata} :
    m.isExpired t = true ↔ LifeOver m.createdAt m.ttlSeconds t := by
  unfold ValueMetadata.isExpired LifeOver
  split
  · next hz => simp [hz]
  · next hz => simp [hz]

theorem answer_eq_none_iff : s.answer C t k = .ok none ↔
    ∀ v, s.valueAt k.toBytes = some v → v.metadata.isExpired t = true := by
  unfold LocalStorage.valueAt
  cases hr : s.data.get k.toBytes with
  | none => exact iff_of_true (answer_of_none hr) fun v h => nomatch h
  | some e =>
    rw [answer_of_some hr]
    constructor
    · intro h v hv
      cases hv
      by_contra hlv
      rw [if_neg hlv] at h
      cases h
    · exact fun h => by rw [if_pos (h _ rfl)]

theorem valueAt_of_answer {v : StoredValue} (h : s.answer C t k = .ok (some v)) :
    s.valueAt k.toBytes = some v := by
  cases hr : s.data.get k.toBytes with
  | none =>
    rw [answer_of_none hr] at h
    cases h
  | some e =>
    rw [answer_of_some hr] at h
    split at h
    · cases h
    · cases h
      rw [LocalStorage.valueAt, hr]
      rfl

/-- **What of a put can be read.** -/
theorem unreadAcross_iff (C : Crypto) (now : Int64) (nid : String) (old : Option LocalEntry)
    (val : Bytes) (opts : PutOptions) : UnreadAcross now opts.ttlSeconds t old ↔
      (∀ e, old = some e → e.value.metadata.isExpired t = true) ∧
        (storedFor C now nid old val opts).metadata.isExpired t = true := by
  rw [isExpired_iff_lifeOver]
  unfold storedFor
  by_cases hz : opts.ttlSeconds = 0
  · have hn : ¬ 0 < opts.ttlSeconds := by
      rw [hz]
      exact UInt64.lt_irrefl 0
    simp only [if_neg hn]
    cases old with
    | none => simp [UnreadAcross, LifeOver, hz, ValueMetadata.new, StoredValue.new]
    | some e =>
      simp [UnreadAcross, LifeOver, hz, ValueMetadata.update, isExpired_iff_lifeOver]
  · have hp : 0 < opts.ttlSeconds := UInt64.pos_iff_ne_zero.mpr hz
    simp only [if_pos hp]
    cases old with
    | none => simp [UnreadAcross, ValueMetadata.new, StoredValue.new]
    | some e => simp [UnreadAcross, hz, ValueMetadata.update, isExpired_iff_lifeOver]

end

/-- **When a failed quorum write has no effect.**  The local write is not taken back: a local get
of the key returns what it would have returned before if and only if it returns nothing in both
cases, the old entry and the new one having expired.  All other keys are as they were. -/
theorem failed_quorum_write_iff {ν : Type} (C : Crypto) (H : DhtNetworkHandler ν) (clock : Clock)
    (d : DhtStorage) (net : ν) (op : DhtOp) {required received : Nat}
    (hfail : (dhtNext C H clock d net op).1 = .error (.quorumNotReached required received))
    (k : StorageKey) (t : Int64) :
    (dhtNext C H clock d net op).2.1.localStore.answer C t k = d.localStore.answer C t k ↔
      (k.toBytes = op.key.toBytes →
        UnreadAcross clock.start op.ttlSeconds t (d.localStore.data.get k.toBytes)) := by
  obtain ⟨val, opts, bid, httl, hs⟩ := quorumNotReached_inv hfail
  by_cases hk : k.toBytes = op.key.toBytes
  · rw [← httl, unreadAcross_iff C clock.start d.localStore.nodeId _ val opts]
    have hn : (dhtNext C H clock d net op).2.1.localStore.valueAt k.toBytes =
        some (storedFor C clock.start d.localStore.nodeId (d.localStore.data.get k.toBytes) val
          opts) := by
      rw [hk, hs.value]
      exact congrArg (Option.map LocalEntry.value) (OrdMap.get_insert_self _ _ _)
    constructor
    · intro heq _
      have hold : d.localStore.answer C t k = .ok none := by
        cases hg : d.localStore.data.get k.toBytes with
        | none => exact answer_of_none hg
        | some e =>
          have ha := answer_of_some (C := C) (t := t) hg
          by_cases he : e.value.metadata.isExpired t = true
          · rwa [if_pos he] at ha
          · -- the old value is still there to be read, and the new one has the next version
            rw [if_neg he] at ha
            rw [hg] at hn
            have hvl := Option.some_inj.mp (hn.symm.trans (valueAt_of_answer (heq.trans ha)))
            have hv := version_storedFor C clock.start d.localStore.nodeId e val opts
            exact absurd hv (by grind)
      refine ⟨fun e he => ?_, answer_eq_none_iff.mp (heq.trans hold) _ hn⟩
      refine answer_eq_none_iff.mp hold e.value ?_
      rw [LocalStorage.valueAt, he]
      rfl
    · intro h
      obtain ⟨ho, hnew⟩ := h hk
      refine Eq.trans (b := .ok none) (answer_eq_none_iff.mpr fun v hv => ?_)
        (answer_eq_none_iff.mpr fun v hv => ?_).symm
      · rw [hn] at hv
        cases hv
        exact hnew
      · obtain ⟨e, he, rfl⟩ := Option.map_eq_some_iff.mp hv
        exact ho e he
  · refine ⟨fun _ h => absurd h hk, fun _ => answer_congr ?_⟩
    rw [hs.other _ hk]
    exact OrdMap.get_insert_of_ne _ hk _

/-- a network in which no node can be reached -/
def silentNetwork : DhtNetworkHandler Unit where
  getValue _ _ _ := (.error (.internal "unreachable"), ())
  putValue _ _ _ _ := (.error (.internal "unreachable"), ())
  deleteValue _ _ _ := (.error (.internal "unreachable"), ())

def aloneStorage : DhtStorage :=
  ((DhtStorage.withNetwork (.inMemory "a") .default).addNode (.new "b" "")).addNode (.new "c" "")

/-- a put that asks for two nodes, of a value that lives for a second -/
def lonelyPut : DhtOp := .put ⟨"n", [1]⟩ [7] ⟨⟨false, 1, none⟩, true, none⟩

theorem failed_quorum_write_later :
    (dhtNext sampleCrypto silentNetwork ⟨0, 0, fun _ => 0⟩ aloneStorage () lonelyPut).1 =
        .error (.quorumNotReached 2 1) ∧
      (dhtNext sampleCrypto silentNetwork ⟨0, 0, fun _ => 0⟩ aloneStorage ()
        lonelyPut).2.1.localStore.answer sampleCrypto 5000 ⟨"n", [1]⟩ =
      aloneStorage.localStore.answer sampleCrypto 5000 ⟨"n", [1]⟩ := by
  have hfl : (dhtNext sampleCrypto silentNetwork ⟨0, 0, fun _ => 0⟩ aloneStorage () lonelyPut).1 =
      .error (.quorumNotReached 2 1) := by decide +kernel
  refine ⟨hfl, (failed_quorum_write_iff sampleCrypto silentNetwork _ aloneStorage () lonelyPut
    hfl ⟨"n", [1]⟩ 5000).mpr fun _ => ?_⟩
  have hn : aloneStorage.localStore.data.get (StorageKey.toBytes ⟨"n", [1]⟩) = none := by
    decide +kernel
  rw [hn]
  exact ⟨by decide, by decide⟩

/-- A get right after the failed put finds the value. -/
theorem failed_quorum_write_stays :
    ¬ ∀ {ν : Type} (C : Crypto) (H : DhtNetworkHandler ν) (clock : Clock) (d : DhtStorage) (net : ν)
      (op : DhtOp) (required received : Nat),
      (dhtNext C H clock d net op).1 = .error (.quorumNotReached required received) →
      ∀ (k : StorageKey) (t : Int64),
        (dhtNext C H clock d net op).2.1.localStore.answer C t k = d.localStore.answer C t k := by
  intro h
  have hs := h sampleCrypto silentNetwork ⟨0, 0, fun _ => 0⟩ aloneStorage () lonelyPut 2 1
    (by decide +kernel) ⟨"n", [1]⟩ 1
  exact absurd hs (by decide +kernel)

end Platform.Storage
