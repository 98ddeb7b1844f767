import Platform.Dynamic.Values
import Platform.Lib.Lossy
import Platform.Lib.OrdMap

/-!
# The dynamic storage (`crates/storage/src/dynamic.rs`)

Entries are kept as bytes in a tree, with a cache of decoded entries in front of it.

* The clock (`SystemTime::now`) is an argument of each function that reads it; one call reads it
  once.
* Operations of `sled` do not fail.  Change listeners and the block height, which no result depends
  on, are left out.
* A type mismatch names the key; `display` takes the `Debug` text of keys as an argument.
-/

namespace Platform.Dynamic
open Platform.Core Lib
open scoped Lib.Bytewise
open State (ChallengeId)

/-- the errors of `MiniChainError` that are returned here -/
inductive DynamicError where
  | serialization (msg : String)
  | notList (key : StorageKey)
  | notMap (key : StorageKey)
deriving DecidableEq

abbrev DynamicResult (α : Type) := Except DynamicError α

structure DynamicStorage where
  tree : OrdMap Bytes Bytes
  cache : HashMap Bytes StorageEntry
  cacheEnabled : Bool
  maxCacheSize : Nat

def readEntry (data : Bytes) : DynamicResult StorageEntry :=
  (entryLayout.deserialize data).mapError fun err => .serialization err.display

namespace DynamicStorage

/-- `new` and `with_cache`, on an empty database -/
def new (enabled : Bool) (maxSize : Nat) : DynamicStorage := ⟨∅, ∅, enabled, maxSize⟩

variable (now : SystemTime) (s : DynamicStorage) (k : Bytes) (key : StorageKey)
  (value : StorageValue) (writer : Option Hotkey)

def hit : Option StorageEntry :=
  if s.cacheEnabled then (s.cache.lookup k).filter fun e => !e.isExpired now else none

def remember (e : StorageEntry) : DynamicStorage :=
  if s.cacheEnabled ∧ s.cache.size < s.maxCacheSize then { s with cache := s.cache.insert k e }
  else s

def remove : DynamicStorage :=
  { s with
    tree := s.tree.erase k
    cache := if s.cacheEnabled then s.cache.erase k else s.cache }

def get (now : SystemTime) (s : DynamicStorage) (key : StorageKey) :
    DynamicResult (Option StorageEntry) × DynamicStorage :=
  match s.hit now key.toBytes with
  | some e => (.ok (some e), s)
  | none =>
    match s.tree.get key.toBytes with
    | none => (.ok none, s)
    | some data =>
      match readEntry data with
      | .error err => (.error err, s)
      | .ok e =>
        if e.isExpired now then (.ok none, s.remove key.toBytes)
        else (.ok (some e), s.remember key.toBytes e)

/-- the entry that `set_with_options` writes over the old one -/
def revise (old : Option StorageEntry) (value : StorageValue) (writer : Option Hotkey)
    (ttl : Option Duration) : StorageEntry :=
  let e := match old with
    | some existing => existing.update now value writer
    | none => .new now value writer
  { e with ttl := ttl.or e.ttl }

def store (e : StorageEntry) : DynamicStorage :=
  { s with
    tree := s.tree.insert k (entryLayout.ser e)
    cache :=
      if s.cacheEnabled ∧ (s.cache.size < s.maxCacheSize ∨ k ∈ s.cache) then s.cache.insert k e
      else s.cache }

def setWithOptions (ttl : Option Duration) : DynamicResult Unit × DynamicStorage :=
  match s.get now key with
  | (.error err, s) => (.error err, s)
  | (.ok old, s) => (.ok (), s.store key.toBytes (revise now old value writer ttl))

def set : DynamicResult Unit × DynamicStorage :=
  s.setWithOptions now key value writer none

def setWithTtl (ttl : Duration) : DynamicResult Unit × DynamicStorage :=
  s.setWithOptions now key value writer (some ttl)

def delete : DynamicResult (Option StorageValue) × DynamicStorage :=
  match s.get now key with
  | (.error err, s) => (.error err, s)
  | (.ok old, s) => (.ok (old.map StorageEntry.value), s.remove key.toBytes)

def increment (delta : Int64) (writer : Option Hotkey) : DynamicResult Int64 × DynamicStorage :=
  match s.get now key with
  | (.error err, s) => (.error err, s)
  | (.ok old, s) =>
    let newValue := ((old.bind fun e => e.value.asI64).getD 0) + delta
    Prod.map (Except.map fun _ => newValue) id (s.set now key (.i64 newValue) writer)

/-- the list that `list_push` appends to -/
def listAt : Option StorageEntry → DynamicResult (List StorageValue)
  | none => .ok []
  | some e =>
    match e.value with
    | .list l => .ok l
    | _ => .error (.notList key)

def listPush : DynamicResult Nat × DynamicStorage :=
  match s.get now key with
  | (.error err, s) => (.error err, s)
  | (.ok old, s) =>
    match listAt key old with
    | .error err => (.error err, s)
    | .ok l =>
      Prod.map (Except.map fun _ => l.length + 1) id (s.set now key (.list (l ++ [value])) writer)

/-- the map that `map_set` changes -/
def mapAt :
    Option StorageEntry → DynamicResult (List (String × StorageValue))
  | none => .ok []
  | some e =>
    match e.value with
    | .map m => .ok m
    | _ => .error (.notMap key)

def mapSet (field : String) (value : StorageValue) (writer : Option Hotkey) :
    DynamicResult Unit × DynamicStorage :=
  match s.get now key with
  | (.error err, s) => (.error err, s)
  | (.ok old, s) =>
    match mapAt key old with
    | .error err => (.error err, s)
    | .ok m => s.set now key (.map (insertField m field value)) writer

def expiredData (data : Bytes) : Bool :=
  match readEntry data with
  | .ok e => e.isExpired now
  | .error _ => false

def cleanupExpired : Nat × DynamicStorage :=
  let toRemove := (s.tree.entries.filter fun e => expiredData now e.2).map Prod.fst
  (toRemove.length,
    { s with
      tree := toRemove.foldl OrdMap.erase s.tree
      cache := if s.cacheEnabled then s.cache.retain fun _ e => !e.isExpired now else s.cache })

def clearCache : DynamicStorage := { s with cache := ∅ }

end DynamicStorage

/-! ## scans -/

def partBytes (part : List Char) : Bytes := utf8 (String.ofList part)

def parseValidator (part : List Char) : Option Hotkey :=
  if h : (partBytes part).length = 32 then some ⟨⟨partBytes part, h⟩⟩ else none

def parseKey (bytes : Bytes) : Option StorageKey :=
  match (lossyChars bytes).splitOn '\x00' with
  | ns :: second :: rest =>
    some
      { ns := .ofList ns
        validator := if rest ≠ [] ∧ second ≠ [] then parseValidator second else none
        key := .ofList ((second :: rest).getLast (List.cons_ne_nil _ _)) }
  | _ => none

/-- the loop of `scan_namespace` -/
def scanLoop (now : SystemTime) :
    List (Bytes × Bytes) → DynamicResult (List (StorageKey × StorageEntry))
  | [] => .ok []
  | (k, data) :: rest =>
    match readEntry data with
    | .error err => .error err
    | .ok e =>
      match scanLoop now rest with
      | .error err => .error err
      | .ok results =>
        if e.isExpired now then .ok results
        else .ok (((parseKey k).map fun key => (key, e)).toList ++ results)

namespace DynamicStorage

def scanPrefix (s : DynamicStorage) (p : Bytes) : List (Bytes × Bytes) :=
  s.tree.entries.filter fun e => p.isPrefixOf e.1

def scanNamespace (now : SystemTime) (s : DynamicStorage) (ns : String) :
    DynamicResult (List (StorageKey × StorageEntry)) :=
  scanLoop now (s.scanPrefix (StorageKey.namespacePrefix ns))

/-- `ChallengeStorage::scan` -/
def scanChallenge (now : SystemTime) (s : DynamicStorage) (challengeId : ChallengeId) :
    DynamicResult (List (String × StorageEntry)) :=
  (s.scanNamespace now challengeId.toText).map fun entries =>
    (entries.filter fun e => e.1.validator.isNone).map fun e => (e.1.key, e.2)

end DynamicStorage

theorem namespacePrefix_toBytes (key : StorageKey) :
    StorageKey.namespacePrefix key.ns <+: key.toBytes := by
  refine ⟨key.scope ++ 0 :: utf8 key.key, ?_⟩
  rw [StorageKey.namespacePrefix, List.append_assoc]
  rfl

theorem mem_scanPrefix {s : DynamicStorage} {item : Bytes × Bytes} {p : Bytes} :
    item ∈ s.scanPrefix p ↔ s.tree.get item.1 = some item.2 ∧ p <+: item.1 := by
  rw [DynamicStorage.scanPrefix, List.mem_filter, List.isPrefixOf_iff_prefix, OrdMap.get_eq_some]

/-! ## runs -/

inductive DynamicOp where
  | get (key : StorageKey)
  | set (key : StorageKey) (value : StorageValue) (writer : Option Hotkey)
  | setWithTtl (key : StorageKey) (value : StorageValue) (writer : Option Hotkey) (ttl : Duration)
  | delete (key : StorageKey)
  | increment (key : StorageKey) (delta : Int64) (writer : Option Hotkey)
  | listPush (key : StorageKey) (value : StorageValue) (writer : Option Hotkey)
  | mapSet (key : StorageKey) (field : String) (value : StorageValue) (writer : Option Hotkey)
  | cleanupExpired
  | clearCache

/-- what a call returns -/
inductive DynamicOut where
  | entry (r : DynamicResult (Option StorageEntry))
  | done (r : DynamicResult Unit)
  | value (r : DynamicResult (Option StorageValue))
  | number (r : DynamicResult Int64)
  | count (r : DynamicResult Nat)

/-- one operation at a time of the clock -/
def dynamicNext (s : DynamicStorage) : SystemTime × DynamicOp → DynamicOut × DynamicStorage
  | (now, .get key) => Prod.map .entry id (s.get now key)
  | (now, .set key value writer) => Prod.map .done id (s.set now key value writer)
  | (now, .setWithTtl key value writer ttl) =>
    Prod.map .done id (s.setWithTtl now key value writer ttl)
  | (now, .delete key) => Prod.map .value id (s.delete now key)
  | (now, .increment key delta writer) => Prod.map .number id (s.increment now key delta writer)
  | (now, .listPush key value writer) => Prod.map .count id (s.listPush now key value writer)
  | (now, .mapSet key field value writer) =>
    Prod.map .done id (s.mapSet now key field value writer)
  | (now, .cleanupExpired) => Prod.map (fun n => .count (.ok n)) id (s.cleanupExpired now)
  | (_, .clearCache) => (.done (.ok ()), s.clearCache)

abbrev DynamicCall := Call DynamicStorage (SystemTime × DynamicOp) DynamicOut

end Platform.Dynamic
