import Platform.Chain.Types
import Platform.Lib.Fields
import Platform.Lib.OrdMap

/-!
# Keys, values and their layout (`store.rs`, the entry types of `local.rs`, the keys of `query.rs`)

* The clock (`chrono::Utc::now().timestamp_millis()`) is an argument of each function that reads it.
-/

namespace Platform.Storage
open Platform.Core Lib Chain List

/-! ## keys -/

structure StorageKey where
  ns : String
  key : Bytes
deriving DecidableEq

/-- the byte of `:` -/
def colon : UInt8 := 58

variable (C : Crypto) (now : Int64) (k : StorageKey)

def StorageKey.toBytes : Bytes := utf8 k.ns ++ colon :: k.key

def StorageKey.keyString : Option String := fromUtf8 k.key

def StorageKey.hash : Bytes32 := C.sha256 k.toBytes

def StorageKey.indexKey : Bytes := utf8 (k.ns ++ ":" ++ hexEncode k.key)

/-- `to_be_bytes` -/
def beBytes (x : UInt64) : Bytes := (leBytes 8 x.toNat).reverse

def blockIndexKey (ns : String) (blockId : UInt64) (k : StorageKey) : Bytes :=
  utf8 ns ++ colon :: (beBytes blockId ++ colon :: (k.hash C).bytes)

/-! ## values -/

structure ValueMetadata where
  createdAt : Int64
  updatedAt : Int64
  version : UInt64
  originNode : Option String
  valueHash : Bytes32
  size : UInt64
  ttlSeconds : UInt64
deriving DecidableEq

def ValueMetadata.new (value : Bytes) (originNode : Option String) : ValueMetadata where
  createdAt := now
  updatedAt := now
  version := 1
  originNode := originNode
  valueHash := C.sha256 value
  size := .ofNat value.length
  ttlSeconds := 0

def ValueMetadata.update (m : ValueMetadata) (value : Bytes) (originNode : Option String) :
    ValueMetadata where
  createdAt := m.createdAt
  updatedAt := now
  version := m.version + 1
  originNode := originNode
  valueHash := C.sha256 value
  size := .ofNat value.length
  ttlSeconds := m.ttlSeconds

def ValueMetadata.isExpired (m : ValueMetadata) : Bool :=
  if m.ttlSeconds = 0 then false
  else decide (m.createdAt + m.ttlSeconds.toInt64 * 1000 < now)

structure StoredValue where
  data : Bytes
  metadata : ValueMetadata
deriving DecidableEq

def StoredValue.new (C : Crypto) (now : Int64) (data : Bytes) (originNode : Option String) :
    StoredValue := ⟨data, .new C now data originNode⟩

structure ReplicationInfo where
  replicatedTo : HashSet String
  lastReplicationAt : Int64
  replicationAttempts : UInt32
  needsReplication : Bool
deriving DecidableEq

def ReplicationInfo.default : ReplicationInfo := ⟨∅, 0, 0, true⟩

def ReplicationInfo.markReplicated (r : ReplicationInfo) (nodeId : String) : ReplicationInfo :=
  { r with replicatedTo := r.replicatedTo.insert nodeId (), lastReplicationAt := now }

structure LocalEntry where
  value : StoredValue
  replication : ReplicationInfo
  blockId : Option UInt64
deriving DecidableEq

structure PutOptions where
  localOnly : Bool
  ttlSeconds : UInt64
  expectedVersion : Option UInt64
deriving DecidableEq

def PutOptions.default : PutOptions := ⟨false, 0, none⟩

inductive StorageError where
  | serialization (msg : String)
  | conflict (msg : String)
  | internal (msg : String)
  | quorumNotReached (required received : Nat)
deriving DecidableEq

abbrev StorageResult (α : Type) := Except StorageError α

/-- An error leaves the state as it was. -/
def orSame {σ α : Type} (s : σ) : StorageResult (α × σ) → StorageResult α × σ
  | .ok (a, s') => (.ok a, s')
  | .error err => (.error err, s)

theorem exists_of_isOk {α : Type} {x : StorageResult α} (h : x.isOk = true) : ∃ a, x = .ok a := by
  cases x with
  | ok a => exact ⟨a, rfl⟩
  | error err => cases h

/-! ## the layout of an entry -/

namespace Layout
open BinCodec Chain.Layout

def valueMetadata : BinCodec ValueMetadata :=
  iso (pair i64 (pair i64 (pair u64 (pair (option string) (pair bytes32 (pair u64 u64))))))
    (fun m =>
      (m.createdAt, m.updatedAt, m.version, m.originNode, m.valueHash, m.size, m.ttlSeconds))
    fun (c, u, v, o, h, s, t) => ⟨c, u, v, o, h, s, t⟩

def storedValue : BinCodec StoredValue :=
  iso (pair bytes valueMetadata) (fun v => (v.data, v.metadata)) fun (d, m) => ⟨d, m⟩

def replicationInfo : BinCodec ReplicationInfo :=
  iso (pair (set string) (pair i64 (pair u32 bool)))
    (fun r => (r.replicatedTo, r.lastReplicationAt, r.replicationAttempts, r.needsReplication))
    fun (n, l, a, b) => ⟨n, l, a, b⟩

def localEntry : BinCodec LocalEntry :=
  iso (pair storedValue (pair replicationInfo (option u64)))
    (fun e => (e.value, e.replication, e.blockId)) fun (v, r, b) => ⟨v, r, b⟩

theorem lawful_valueMetadata : valueMetadata.Lawful :=
  lawful_iso (lawful_pair lawful_i64 (lawful_pair lawful_i64 (lawful_pair lawful_u64
    (lawful_pair (lawful_option lawful_string) (lawful_pair lawful_bytes32
      (lawful_pair lawful_u64 lawful_u64)))))) fun _ => rfl

theorem lawful_storedValue : storedValue.Lawful :=
  lawful_iso (lawful_pair lawful_bytes lawful_valueMetadata) fun _ => rfl

theorem lawful_replicationInfo : replicationInfo.Lawful :=
  lawful_iso (lawful_pair (lawful_set lawful_string)
    (lawful_pair lawful_i64 (lawful_pair lawful_u32 lawful_bool))) fun _ => rfl

theorem lawful_localEntry : localEntry.Lawful :=
  lawful_iso (lawful_pair lawful_storedValue
    (lawful_pair lawful_replicationInfo (lawful_option lawful_u64))) fun _ => rfl

end Layout

/-- **An entry reads back whole**, whatever its size and whatever follows: `bincode` does not apply
`MAX_ENTRY_SIZE` when it decodes a slice. -/
theorem localEntry_reads_back (e : LocalEntry) (hlen : (Layout.localEntry.ser e).length < 2 ^ 64)
    (rest : Bytes) : Layout.localEntry.deserialize (Layout.localEntry.ser e ++ rest) = .ok e :=
  BinCodec.deserialize_eq_ok.mpr ⟨rest, Layout.lawful_localEntry.reads e rest hlen⟩

theorem localEntry_reads_back_sample :
    Layout.localEntry.deserialize (Layout.localEntry.ser
      ⟨.new sampleCrypto 5 [1, 2] (some "node"), .default, some 7⟩ ++ [9]) =
      .ok ⟨.new sampleCrypto 5 [1, 2] (some "node"), .default, some 7⟩ :=
  localEntry_reads_back _ (by decide +kernel) [9]

/-! ## the keys determine what they were made from -/

/-- no `:` in the namespace -/
def ColonFree (ns : String) : Prop := colon ∉ utf8 ns

instance (ns : String) : Decidable (ColonFree ns) := inferInstanceAs (Decidable (_ ∉ _))

theorem utf8_colon (a b : String) : utf8 (a ++ ":" ++ b) = utf8 a ++ colon :: utf8 b := by
  rw [utf8_append, utf8_append, append_assoc]
  rfl

theorem append_colon_isPrefix {a b x y : Bytes} (ha : colon ∉ a) (hb : colon ∉ b) :
    a ++ colon :: x <+: b ++ colon :: y ↔ a = b ∧ x <+: y := by
  constructor
  · intro h
    obtain ⟨t, ht⟩ := h
    rw [append_assoc] at ht
    obtain ⟨hab, hxy⟩ := append_cons_inj ha hb ht
    exact ⟨hab, t, hxy⟩
  · intro h
    obtain ⟨rfl, t, rfl⟩ := h
    exact ⟨t, by simp⟩

theorem isPrefix_append_colon {c a y : Bytes} (hc : colon ∉ c) :
    c <+: a ++ colon :: y ↔ c <+: a := by
  constructor
  · intro h
    rcases prefix_or_prefix_of_prefix h
      (show a ++ [colon] <+: a ++ colon :: y from ⟨y, by simp⟩) with hle | hle
    · rcases prefix_concat_iff.mp hle with heq | hpr
      · exact absurd (heq ▸ mem_append_right _ mem_cons_self) hc
      · exact hpr
    · exact absurd (hle.subset (mem_append_right _ mem_cons_self)) hc
  · intro h
    exact h.trans (prefix_append _ _)

theorem toBytes_inj {k k' : StorageKey} (hk : ColonFree k.ns) (hk' : ColonFree k'.ns)
    (h : k.toBytes = k'.toBytes) : k = k' := by
  obtain ⟨hns, hky⟩ := append_cons_inj hk hk' h
  cases k
  cases k'
  cases utf8_inj hns
  cases hky
  rfl

def hexByte (n : Nat) : UInt8 := (hexDigit n).toNat.toUInt8

/-- the bytes of `hex::encode` -/
def hexBytes (bs : Bytes) : Bytes :=
  bs.flatMap fun b => [hexByte (b.toNat / 16), hexByte (b.toNat % 16)]

theorem utf8EncodeChar_hexDigit : ∀ n < 16, String.utf8EncodeChar (hexDigit n) = [hexByte n] := by
  decide

theorem hexByte_inj : ∀ n < 16, ∀ m < 16, hexByte n = hexByte m → n = m := by decide

theorem utf8_ofList (l : List Char) : utf8 (String.ofList l) = l.flatMap String.utf8EncodeChar := by
  simp [utf8, utf8Encode]

theorem utf8_hexEncode (bs : Bytes) : utf8 (hexEncode bs) = hexBytes bs := by
  rw [hexEncode, utf8_ofList, flatMap_assoc]
  congr 1
  funext b
  have hb := b.toNat_lt
  show String.utf8EncodeChar _ ++ (String.utf8EncodeChar _ ++ []) = _
  rw [utf8EncodeChar_hexDigit _ (by omega), utf8EncodeChar_hexDigit _ (by omega)]
  rfl

theorem hexBytes_inj {a b : Bytes} (h : hexBytes a = hexBytes b) : a = b := by
  rw [← utf8_hexEncode, ← utf8_hexEncode] at h
  exact hexEncode_inj (utf8_inj h)

theorem indexKey_eq : k.indexKey = utf8 k.ns ++ colon :: hexBytes k.key := by
  rw [StorageKey.indexKey, utf8_colon, utf8_hexEncode]

theorem indexKey_inj {k k' : StorageKey} (hk : ColonFree k.ns) (hk' : ColonFree k'.ns)
    (h : k.indexKey = k'.indexKey) : k = k' := by
  rw [indexKey_eq, indexKey_eq] at h
  obtain ⟨hns, hky⟩ := append_cons_inj hk hk' h
  cases k
  cases k'
  cases utf8_inj hns
  cases hexBytes_inj hky
  rfl

@[simp] theorem length_beBytes (x : UInt64) : (beBytes x).length = 8 := by simp [beBytes]

theorem beBytes_inj {x y : UInt64} (h : beBytes x = beBytes y) : x = y :=
  encodeU64_inj (reverse_injective h)

theorem blockIndexKey_inj {C : Crypto} {ns ns' : String} {b b' : UInt64} {k k' : StorageKey}
    (hns : ColonFree ns) (hns' : ColonFree ns')
    (h : blockIndexKey C ns b k = blockIndexKey C ns' b' k') :
    ns = ns' ∧ b = b' ∧ k.hash C = k'.hash C := by
  obtain ⟨hnm, hr⟩ := append_cons_inj hns hns' h
  obtain ⟨hbl, hh⟩ := append_inj hr (by simp)
  refine ⟨utf8_inj hnm, beBytes_inj hbl, ?_⟩
  have hby := (cons.inj hh).2
  cases hk : k.hash C
  cases hk' : k'.hash C
  rw [hk, hk'] at hby
  cases hby
  rfl

end Platform.Storage
