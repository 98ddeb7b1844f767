import Platform.Storage.Store

/-!
# Entries and their keys (`crates/storage/src/distributed.rs`)

An entry is stored under the text `tag:challenge:key`, where the tag names its category.  When
challenge ids contain no `:`, that text determines the category, the challenge and the key
(`buildKey_inj`).

* LZ4 and the two encodings of a value (bincode, JSON) are third-party code: a value is given by its
  encodings, and the compression is a parameter.
* The tree keeps an entry in place of its bytes (`StoredEntry.deserialize_toBytes`).
-/

namespace Platform.Distributed
open Platform.Core Lib Chain
open Storage (colon ColonFree)

/-! ## categories -/

inductive Category where
  | submission
  | agent
  | evaluation
  | consensus
  | log
  | index
  | metadata
deriving DecidableEq

namespace Category

/-- the text of `prefix()` before its `:` -/
def tag : Category → String
  | submission => "sub"
  | agent => "agt"
  | evaluation => "evl"
  | consensus => "cns"
  | log => "log"
  | index => "idx"
  | metadata => "met"

def keyPrefix (c : Category) : Bytes := utf8 c.tag ++ [colon]

def all : List Category := [submission, agent, evaluation, consensus, log, index, metadata]

/-- `as u8` -/
def asU8 : Category → Nat
  | submission => 0
  | agent => 1
  | evaluation => 2
  | consensus => 3
  | log => 4
  | index => 5
  | metadata => 6

/-- the variants in the order of their indices -/
def ofIndex : Nat → Category
  | 0 => submission
  | 1 => agent
  | 2 => evaluation
  | 3 => consensus
  | 4 => log
  | 5 => index
  | _ => metadata

theorem colonFree_tag (c : Category) : ColonFree c.tag := by cases c <;> decide +kernel

theorem tag_inj {c c' : Category} (h : c.tag = c'.tag) : c = c' := by
  revert h
  cases c <;> cases c' <;> decide

end Category

/-! ## entries -/

structure EntryHeader where
  category : Category
  challengeId : String
  key : String
  version : UInt64
  createdBlock : UInt64
  updatedBlock : UInt64
  expiresBlock : UInt64
  creator : String
  valueHash : Bytes32
  rawSize : UInt32
  compressedSize : UInt32
  acks : HashSet String
  consensusReached : Bool
deriving DecidableEq

structure StoredEntry where
  header : EntryHeader
  compressedValue : Bytes
deriving DecidableEq

inductive StorageError where
  | serialization (msg : String)
  | tooLarge (size max : Nat)
  | validationFailed (reason : String)
deriving DecidableEq

/-- a value as the two encoders write it -/
structure Value where
  bincode : Except String Bytes
  json : Except String Bytes

def maxRawSize : Nat := 10 * 1024 * 1024
def maxCompressedSize : Nat := 5 * 1024 * 1024

def StoredEntry.new (C : Crypto) (compress : Bytes → Bytes) (category : Category)
    (challengeId key : String) (value : Value) (creator : String) (block : UInt64)
    (ttlBlocks : Option UInt64) : Except StorageError StoredEntry :=
  match value.bincode with
  | .error e => .error (.serialization e)
  | .ok raw =>
    if maxRawSize < raw.length then .error (.tooLarge raw.length maxRawSize)
    else
      let compressed := compress raw
      if maxCompressedSize < compressed.length then
        .error (.tooLarge compressed.length maxCompressedSize)
      else
        .ok
          { header :=
              { category := category
                challengeId := challengeId
                key := key
                version := 1
                createdBlock := block
                updatedBlock := block
                expiresBlock := (ttlBlocks.map fun t => block + t).getD 0
                creator := creator
                valueHash := C.sha256 raw
                rawSize := .ofNat raw.length
                compressedSize := .ofNat compressed.length
                acks := ∅
                consensusReached := false }
            compressedValue := compressed }

variable {C : Crypto} {cmp : Bytes → Bytes} {category cat' : Category}
  {challengeId cid' key key' creator : String} {val : Value} {block : UInt64}
  {ttl : Option UInt64} {entry : StoredEntry}

theorem header_new (h : StoredEntry.new C cmp category challengeId key val creator block
    ttl = .ok entry) :
    entry.header.category = category ∧ entry.header.challengeId = challengeId ∧
      entry.header.key = key ∧ entry.header.creator = creator := by
  unfold StoredEntry.new at h
  split at h
  · cases h
  · split at h
    · cases h
    · dsimp only at h
      split at h
      · cases h
      · cases h
        exact ⟨rfl, rfl, rfl, rfl⟩

def StoredEntry.isExpired (e : StoredEntry) (currentBlock : UInt64) : Bool :=
  decide (0 < e.header.expiresBlock ∧ e.header.expiresBlock ≤ currentBlock)

/-! ## layout -/

section
open BinCodec Chain.Layout

def categoryLayout : BinCodec Category :=
  enumeration Category.asU8 7 (fun _ => []) fun i bs => .ok (.ofIndex i, bs)

def headerLayout : BinCodec EntryHeader :=
  iso (pair categoryLayout (pair string (pair string (pair u64 (pair u64 (pair u64 (pair u64
      (pair string (pair bytes32 (pair u32 (pair u32 (pair (set string) bool))))))))))))
    (fun h => (h.category, h.challengeId, h.key, h.version, h.createdBlock, h.updatedBlock,
      h.expiresBlock, h.creator, h.valueHash, h.rawSize, h.compressedSize, h.acks,
      h.consensusReached))
    fun (a, b, c, d, e, f, g, h, i, j, k, l, m) => ⟨a, b, c, d, e, f, g, h, i, j, k, l, m⟩

def entryLayout : BinCodec StoredEntry :=
  iso (pair headerLayout bytes) (fun e => (e.header, e.compressedValue)) fun (a, b) => ⟨a, b⟩

end

def StoredEntry.toBytes (e : StoredEntry) : Bytes := entryLayout.ser e

section
open BinCodec Chain.Layout

theorem lawful_entryLayout : entryLayout.Lawful := by
  have hct : categoryLayout.Lawful :=
    lawful_enumeration (by decide) (fun c => by cases c <;> decide) fun c rest _ => by
      cases c <;> rfl
  have hh : headerLayout.Lawful := by
    apply_rules [hct, lawful_string, lawful_u64, lawful_u32, lawful_bytes32, lawful_bool,
      lawful_set, lawful_pair, lawful_iso, fun _ => rfl]
  exact lawful_iso (lawful_pair hh lawful_bytes) fun _ => rfl

end

/-- `from_bytes` gives the entry back, whatever its size: `bincode` does not apply
`MAX_STORED_ENTRY_SIZE` when it decodes a slice. -/
theorem StoredEntry.deserialize_toBytes (e : StoredEntry) (h : e.toBytes.length < 2 ^ 64) :
    entryLayout.deserialize e.toBytes = .ok e := lawful_entryLayout.deserialize h

/-! ## keys -/

def buildKey (category : Category) (challengeId key : String) : Bytes :=
  category.keyPrefix ++ (utf8 challengeId ++ colon :: utf8 key)

def StoredEntry.storageKey (e : StoredEntry) : Bytes :=
  buildKey e.header.category e.header.challengeId e.header.key

theorem buildKey_eq (category : Category) (challengeId key : String) :
    buildKey category challengeId key =
      utf8 category.tag ++ colon :: (utf8 challengeId ++ colon :: utf8 key) := by
  rw [buildKey, Category.keyPrefix, List.append_assoc]
  rfl

theorem buildKey_inj (hid : ColonFree challengeId) (hid' : ColonFree cid')
    (h : buildKey category challengeId key = buildKey cat' cid' key') :
    category = cat' ∧ challengeId = cid' ∧ key = key' := by
  rw [buildKey_eq, buildKey_eq] at h
  obtain ⟨htg, hr⟩ := append_cons_inj category.colonFree_tag cat'.colonFree_tag h
  obtain ⟨hch, hk⟩ := append_cons_inj hid hid' hr
  exact ⟨Category.tag_inj (utf8_inj htg), utf8_inj hch, utf8_inj hk⟩

/-- an entry for use in concrete runs -/
def sampleEntry : StoredEntry where
  header :=
    { category := .submission
      challengeId := "c"
      key := "k"
      version := 1
      createdBlock := 0
      updatedBlock := 0
      expiresBlock := 0
      creator := "v"
      valueHash := sampleCrypto.sha256 [7]
      rawSize := 1
      compressedSize := 1
      acks := ∅
      consensusReached := true }
  compressedValue := [7]

end Platform.Distributed
