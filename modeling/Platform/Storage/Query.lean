import Platform.Storage.Listing

/-!
# Queries over the block index (`query.rs`, `query` of `local.rs`)

A query scans the block index from the cursor on.  The cursor holds the block and the key hash of
the last item, and the scan starts at its index key with the last byte raised.
-/

namespace Platform.Storage
open Platform.Core Lib Chain
open scoped Lib.Bytewise

/-! ## filters -/

inductive QueryFilter where
  | blockBefore (block : UInt64)
  | blockAfter (block : UInt64)
  | blockRange (start stop : UInt64)
  | createdBefore (timestamp : Int64)
  | createdAfter (timestamp : Int64)
  | keyPrefix (p : Bytes)
  | and (filters : List QueryFilter)
  | or (filters : List QueryFilter)

mutual

def QueryFilter.matches (blockId : Option UInt64) (createdAt : Int64) (key : Bytes) :
    QueryFilter → Bool
  | .blockBefore maxBlock => blockId.all fun b => decide (b < maxBlock)
  | .blockAfter minBlock => blockId.any fun b => decide (minBlock < b)
  | .blockRange start stop => blockId.any fun b => decide (start ≤ b) && decide (b ≤ stop)
  | .createdBefore timestamp => decide (createdAt < timestamp)
  | .createdAfter timestamp => decide (timestamp < createdAt)
  | .keyPrefix p => p.isPrefixOf key
  | .and filters => QueryFilter.matchesAll blockId createdAt key filters
  | .or filters => QueryFilter.matchesAny blockId createdAt key filters

def QueryFilter.matchesAll (blockId : Option UInt64) (createdAt : Int64) (key : Bytes) :
    List QueryFilter → Bool
  | [] => true
  | f :: l => f.matches blockId createdAt key && QueryFilter.matchesAll blockId createdAt key l

def QueryFilter.matchesAny (blockId : Option UInt64) (createdAt : Int64) (key : Bytes) :
    List QueryFilter → Bool
  | [] => false
  | f :: l => f.matches blockId createdAt key || QueryFilter.matchesAny blockId createdAt key l

end

/-! ## cursors -/

structure QueryCursor where
  lastBlockId : Option UInt64
  lastKeyHash : Option Bytes
  ns : String
deriving DecidableEq

def QueryCursor.fromLastItem (C : Crypto) (ns : String) (blockId : UInt64) (k : StorageKey) :
    QueryCursor := ⟨some blockId, some (k.hash C).bytes, ns⟩

namespace Layout
open BinCodec

def queryCursor : BinCodec QueryCursor :=
  iso (pair (option u64) (pair (option bytes) string))
    (fun c => (c.lastBlockId, c.lastKeyHash, c.ns)) fun (b, h, n) => ⟨b, h, n⟩

theorem lawful_queryCursor : queryCursor.Lawful :=
  lawful_iso (lawful_pair (lawful_option lawful_u64)
    (lawful_pair (lawful_option lawful_bytes) lawful_string)) fun _ => rfl

end Layout

def QueryCursor.toBytes (c : QueryCursor) : Bytes := Layout.queryCursor.ser c

def QueryCursor.fromBytes (bs : Bytes) : Option QueryCursor :=
  match Layout.queryCursor.deserialize bs with
  | .ok c => some c
  | .error _ => none

/-- the standard engine of the `base64` crate -/
structure Base64 where
  encode : Bytes → String
  decode : String → Option Bytes

def Base64.Lawful (B : Base64) : Prop := ∀ bs, B.decode (B.encode bs) = some bs

def QueryCursor.toBase64 (B : Base64) (c : QueryCursor) : String := B.encode c.toBytes

def QueryCursor.fromBase64 (B : Base64) (text : String) : Option QueryCursor :=
  (B.decode text).bind QueryCursor.fromBytes

/-! ## queries -/

structure QueryBuilder where
  ns : String
  filters : List QueryFilter
  limit : Nat
  offset : Nat
  cursor : Option QueryCursor
  includeCount : Bool

structure QueryResult where
  items : List Item
  totalCount : Option Nat
  offset : Nat
  limit : Nat
  hasMore : Bool
  nextCursor : Option QueryCursor
deriving DecidableEq

def QueryBuilder.buildFilter (q : QueryBuilder) : Option QueryFilter :=
  match q.filters with
  | [] => none
  | [f] => some f
  | l => some (.and l)

def blockRangeStart (ns : String) (startBlock : UInt64) : Bytes :=
  utf8 ns ++ colon :: beBytes startBlock

/-- `saturating_add(1)` -/
def satSucc (b : UInt64) : UInt64 := if b = UInt64.ofNat (2 ^ 64 - 1) then b else b + 1

def narrow : Option UInt64 × Option UInt64 → QueryFilter → Option UInt64 × Option UInt64
  | (lo, hi), .blockBefore b => (lo, some (hi.elim b fun m => min m b))
  | (lo, hi), .blockAfter b => (some (lo.elim (satSucc b) fun m => max m (satSucc b)), hi)
  | (lo, hi), .blockRange start stop =>
    (some (lo.elim start fun m => max m start), some (hi.elim (stop + 1) fun m => min m (stop + 1)))
  | bounds, _ => bounds

/-- a filter of the query: conjunctions are looked into, one level deep -/
def narrowTop (bounds : Option UInt64 × Option UInt64) : QueryFilter →
    Option UInt64 × Option UInt64
  | .and filters => filters.foldl narrow bounds
  | f => narrow bounds f

/-- `determine_scan_range_from_query` -/
def QueryBuilder.scanRange (q : QueryBuilder) : Bytes × Option Bytes :=
  let bounds := q.filters.foldl narrowTop (none, none)
  (blockRangeStart q.ns (bounds.1.getD 0), bounds.2.map (blockRangeStart q.ns))

def fromBeBytes (bs : Bytes) : UInt64 := .ofNat (leNat bs.reverse)

def parseBlockIndexKey (x : Bytes) : Option (String × UInt64) :=
  match x.dropWhile (· ≠ colon) with
  | [] => none
  | _ :: rest =>
    match fromUtf8 (x.takeWhile (· ≠ colon)) with
    | none => none
    | some ns =>
      if rest.length < 8 + 1 + 32 then none
      else if rest[8]? ≠ some colon then none
      else some (ns, fromBeBytes (rest.take 8))

abbrev BlockItem := StorageKey × StoredValue × UInt64

def passes (filter : Option QueryFilter) (dataKey : Bytes) (e : LocalEntry) : Bool :=
  match filter with
  | none => true
  | some f =>
    match parseKey dataKey with
    | none => true
    | some k => f.matches e.blockId e.value.metadata.createdAt k.key

/-- the loop of `query_block_index_range` -/
def queryScan (now : Int64) (s : LocalStorage) (ns : String) (limit : Nat)
    (filter : Option QueryFilter) :
    List (Bytes × Bytes) → List BlockItem → List BlockItem
  | [], results => results
  | (indexKey, dataKey) :: rest, results =>
    match parseBlockIndexKey indexKey with
    | none => queryScan now s ns limit filter rest results
    | some (parsedNs, blockId) =>
      if parsedNs ≠ ns then results
      else
        match s.data.get dataKey with
        | none => queryScan now s ns limit filter rest results
        | some e =>
          if e.value.metadata.isExpired now then queryScan now s ns limit filter rest results
          else if passes filter dataKey e = false then
            queryScan now s ns limit filter rest results
          else
            match parseKey dataKey with
            | none => queryScan now s ns limit filter rest results
            | some k =>
              if limit ≤ (results ++ [(k, e.value, blockId)]).length then
                results ++ [(k, e.value, blockId)]
              else queryScan now s ns limit filter rest (results ++ [(k, e.value, blockId)])

def LocalStorage.queryBlockIndexRange (now : Int64) (s : LocalStorage) (ns : String)
    (startKey : Bytes) (endKey : Option Bytes) (limit : Nat) (filter : Option QueryFilter) :
    List BlockItem :=
  queryScan now s ns limit filter
    ((s.blockIndex.rangeFrom startKey).filter fun x =>
      endKey.all fun stop => decide (x.1 < stop)) []

def QueryBuilder.effectiveStart (q : QueryBuilder) : Bytes :=
  match q.cursor with
  | none => q.scanRange.1
  | some c =>
    match c.lastBlockId, c.lastKeyHash with
    | some block, some hash => raiseLast (utf8 q.ns ++ colon :: (beBytes block ++ colon :: hash))
    | _, _ => q.scanRange.1

def LocalStorage.query (C : Crypto) (now : Int64) (s : LocalStorage) (q : QueryBuilder) :
    StorageResult QueryResult :=
  let results :=
    s.queryBlockIndexRange now q.ns q.effectiveStart q.scanRange.2 (q.limit + 1) q.buildFilter
  .ok
    { items := (results.take q.limit).map fun r => (r.1, r.2.1)
      totalCount := if q.includeCount then some (s.countByNamespace q.ns) else none
      offset := q.offset
      limit := q.limit
      hasMore := decide (q.limit < results.length)
      nextCursor :=
        if q.limit < results.length then
          ((results.take q.limit).getLast?).map fun r => QueryCursor.fromLastItem C q.ns r.2.2 r.1
        else none }

end Platform.Storage
