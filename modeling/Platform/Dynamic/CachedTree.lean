import Mathlib.Data.List.MinMax
import Platform.Core.Crypto
import Platform.Lib.Assoc
import Platform.Lib.Machine

/-!
# Cached trees and batched writes (`crates/storage/src/optimized.rs`)

A tree of the database behind a cache of bounded size, whose entries are used for a limited time,
and one behind a buffer of writes.  Times are read off one clock, and whichever entry is evicted
depends on the order of iteration.
-/

namespace Platform.Dynamic
open Platform.Core Lib List

structure LruCache (κ υ : Type) where
  map : HashMap κ (υ × Nat)
  maxSize : Nat
  ttl : Nat

namespace LruCache
variable {κ υ : Type} [DecidableEq κ] (c : LruCache κ υ) (it : Iteration κ) (now : Nat)

def new (maxSize ttl : Nat) : LruCache κ υ := ⟨∅, maxSize, ttl⟩

def get (key : κ) : Option υ :=
  (c.map.lookup key).bind fun e => if now - e.2 < c.ttl then some e.1 else none

def remove (key : κ) : LruCache κ υ := { c with map := c.map.erase key }

def evictOldest : LruCache κ υ :=
  match (c.map.pairsBy it).argmin fun e => e.2.2 with
  | some oldest => c.remove oldest.1
  | none => c

def insert (key : κ) (value : υ) : LruCache κ υ :=
  let c := if c.maxSize ≤ c.map.size then c.evictOldest it else c
  { c with map := c.map.insert key (value, now) }

def clear : LruCache κ υ := { c with map := ∅ }

end LruCache

structure CacheStats where
  hits : UInt64 := 0
  misses : UInt64 := 0
  writes : UInt64 := 0

structure CachedTree where
  tree : HashMap Bytes Bytes
  cache : LruCache Bytes Bytes
  stats : CacheStats

inductive CacheOp where
  | get (key : Bytes)
  | insert (key value : Bytes)
  | remove (key : Bytes)
  | clearCache

/-- a call, with the time at which it is made, the order in which the cache would be iterated, and
the error of the database, if there is one -/
structure CacheCall where
  op : CacheOp
  now : Nat
  it : Iteration Bytes
  fault : Option String

namespace CachedTree
variable (t : CachedTree) (c : CacheCall)

def new (tree : HashMap Bytes Bytes) (cacheSize cacheTtl : Nat) : CachedTree :=
  ⟨tree, .new cacheSize cacheTtl, {}⟩

def get (key : Bytes) : Except String (Option Bytes) × CachedTree :=
  match t.cache.get c.now key with
  | some value => (.ok (some value), { t with stats.hits := t.stats.hits + 1 })
  | none =>
    let t := { t with stats.misses := t.stats.misses + 1 }
    match c.fault, t.tree.lookup key with
    | some e, _ => (.error e, t)
    | none, some value =>
      (.ok (some value), { t with cache := t.cache.insert c.it c.now key value })
    | none, none => (.ok none, t)

def insert (key value : Bytes) : Except String (Option Bytes) × CachedTree :=
  match c.fault with
  | some e => (.error e, t)
  | none =>
    (.ok none,
      { t with
        tree := t.tree.insert key value
        cache := t.cache.insert c.it c.now key value
        stats.writes := t.stats.writes + 1 })

def remove (key : Bytes) : Except String (Option Bytes) × CachedTree :=
  let t := { t with cache := t.cache.remove key }
  match c.fault with
  | some e => (.error e, t)
  | none => (.ok (t.tree.lookup key), { t with tree := t.tree.erase key })

def clearCache : CachedTree := { t with cache := t.cache.clear }

def next : Except String (Option Bytes) × CachedTree :=
  match c.op with
  | .get key => t.get c key
  | .insert key value => t.insert c key value
  | .remove key => t.remove c key
  | .clearCache => (.ok none, t.clearCache)

end CachedTree

/-- The cache holds entries of the tree only, and not more than its size. -/
structure Caches (size : Nat) (tree : HashMap Bytes Bytes) (c : LruCache Bytes Bytes) : Prop where
  maxSize : c.maxSize = size
  bounded : c.map.size ≤ size
  cached : ∀ k e, c.map.lookup k = some e → tree.lookup k = some e.1

section
variable {size : Nat} {tree tree' : HashMap Bytes Bytes} {c : LruCache Bytes Bytes}
  {key value : Bytes}
open LruCache HashMap

theorem Caches.get (h : Caches size tree c) {now : Nat} (hg : c.get now key = some value) :
    tree.lookup key = some value := by
  obtain ⟨e, he, hv⟩ := Option.bind_eq_some_iff.mp hg
  obtain ⟨-, hv⟩ := Option.ite_none_right_eq_some.mp hv
  rw [h.cached key e he, hv]

theorem Caches.remove (h : Caches size tree c) (key : Bytes) :
    Caches size (tree.erase key) (c.remove key) ∧ Caches size tree (c.remove key) := by
  have hb : (c.remove key).map.size ≤ size := (size_erase_le c.map key).trans h.bounded
  refine ⟨⟨h.maxSize, hb, fun k e he => ?_⟩, ⟨h.maxSize, hb, fun k e he => ?_⟩⟩
  · obtain ⟨hne, he⟩ := (lookup_erase_iff ..).mp he
    exact (lookup_erase_iff ..).mpr ⟨hne, h.cached k e he⟩
  · exact h.cached k e ((lookup_erase_iff ..).mp he).2

/-- An eviction makes room for one entry. -/
theorem Caches.evict (h : Caches size tree c) (hsz : 0 < size)
    (hf : c.maxSize ≤ c.map.size) (it : Iteration Bytes) :
    Caches size tree (c.evictOldest it) ∧ (c.evictOldest it).map.size < size := by
  have hm := h.maxSize
  have hb := h.bounded
  unfold evictOldest
  cases ha : (c.map.pairsBy it).argmin fun e => e.2.2 with
  | none =>
    have hz : (c.map.keysBy it).length = 0 := by
      rw [← map_fst_pairsBy, argmin_eq_none.mp ha]
      rfl
    rw [length_keysBy] at hz
    omega
  | some oldest =>
    refine ⟨(h.remove oldest.1).2, ?_⟩
    have hs := size_erase_of_mem (mem_of_lookup (mem_pairsBy.mp (argmin_mem ha)))
    show HashMap.size (c.map.erase oldest.1) < size
    omega

theorem Caches.insert (h : Caches size tree c) (hs : 0 < size) (it : Iteration Bytes)
    (now : Nat) (hky : tree'.lookup key = some value)
    (hne : ∀ k ≠ key, tree'.lookup k = tree.lookup k) :
    Caches size tree' (c.insert it now key value) := by
  unfold LruCache.insert
  generalize hc : (if c.maxSize ≤ c.map.size then c.evictOldest it else c) = c'
  obtain ⟨h, hlt⟩ : Caches size tree c' ∧ c'.map.size < size := by
    rw [← hc]
    by_cases hf : c.maxSize ≤ c.map.size
    · rw [if_pos hf]
      exact h.evict hs hf it
    · rw [if_neg hf]
      exact ⟨h, by rw [← h.maxSize]; omega⟩
  refine ⟨h.maxSize, ?_, fun k e he => ?_⟩
  · by_cases hk : key ∈ c'.map
    · exact (size_insert_of_mem hk _).trans_le hlt.le
    · exact (size_insert_of_notMem hk _).trans_le hlt
  · rcases (lookup_insert_iff ..).mp he with ⟨rfl, rfl⟩ | ⟨hk, he⟩
    · exact hky
    · rw [hne k hk, h.cached k e he]

theorem Caches.next {t : CachedTree} (h : Caches size t.tree t.cache) (hs : 0 < size)
    (c : CacheCall) : Caches size (t.next c).2.tree (t.next c).2.cache := by
  unfold CachedTree.next
  cases c.op with
  | get key =>
    dsimp only [CachedTree.get]
    cases t.cache.get c.now key with
    | some value => exact h
    | none =>
      dsimp only
      split
      · exact h
      · next hv => exact h.insert hs c.it c.now hv fun _ _ => rfl
      · exact h
  | insert key value =>
    dsimp only [CachedTree.insert]
    cases c.fault with
    | some e => exact h
    | none =>
      exact h.insert hs c.it c.now (AList.lookup_insert _) fun _ => AList.lookup_insert_ne
  | remove key =>
    dsimp only [CachedTree.remove]
    cases c.fault with
    | some e => exact (h.remove key).2
    | none => exact (h.remove key).1
  | clearCache => exact ⟨h.maxSize, Nat.zero_le _, fun k e he => nomatch he⟩

theorem Caches.get_eq {t : CachedTree} (h : Caches size t.tree t.cache) {c : CacheCall}
    (hc : c.fault = none) : (t.get c key).1 = .ok (t.tree.lookup key) := by
  unfold CachedTree.get
  cases hg : t.cache.get c.now key with
  | some value => rw [h.get hg]
  | none =>
    rw [hc]
    dsimp only
    cases t.tree.lookup key with
    | none | some _ => rfl

end

/-- **A cached tree is the tree**: in every run, each read gives what the tree holds, and the cache
keeps to its size. -/
theorem cachedTree_transparent {size : Nat} (hs : 1 ≤ size) (ttl : Nat)
    (tree : HashMap Bytes Bytes) {t : CachedTree}
    {l : List (Call CachedTree CacheCall (Except String (Option Bytes)))}
    (hrun : MachineRun CachedTree.next (.new tree size ttl) l t) :
    ∀ call ∈ l, (∀ key, call.input.op = .get key → call.input.fault = none →
        call.out = .ok (call.before.tree.lookup key)) ∧ call.after.cache.map.size ≤ size := by
  have h0 : Caches size tree (.new size ttl) := ⟨rfl, Nat.zero_le _, fun k e he => nomatch he⟩
  refine Run.labels (P := fun t : CachedTree => Caches size t.tree t.cache) h0 ?_ hrun
  rintro t call t' h ⟨rfl, rfl, hnx⟩
  have hn := h.next hs call.input
  rw [hnx] at hn
  refine ⟨⟨fun key hop hf => ?_, hn.bounded⟩, hn⟩
  have ho : (call.before.next call.input).1 = call.out := by rw [hnx]
  rw [← ho, CachedTree.next, hop]
  exact h.get_eq hf

/-- two entries in a cache of one, and a read of the evicted one -/
def twoInserts : List CacheCall :=
  [⟨.insert [1] [7], 0, .asListed, none⟩, ⟨.insert [2] [8], 1, .asListed, none⟩,
    ⟨.get [1], 2, .asListed, none⟩]

theorem cachedTree_transparent_two :
    (trace CachedTree.next (.new ∅ 1 5) twoInserts).1.map Call.out =
      [.ok none, .ok none, .ok (some [7])] ∧
    ∀ call ∈ (trace CachedTree.next (.new ∅ 1 5) twoInserts).1, call.after.cache.map.size ≤ 1 :=
  ⟨rfl, fun call hc =>
    (cachedTree_transparent le_rfl 5 ∅ (machineRun_trace _ _ _) call hc).2⟩

/-! ## batched writes -/

abbrev Write := Bytes × Bytes

/-- `apply_batch`: as one, and the last write of a key stands -/
def applyBatch (tree : HashMap Bytes Bytes) (batch : List Write) : HashMap Bytes Bytes :=
  batch.foldl (fun t w => t.insert w.1 w.2) tree

structure BatchWriter where
  tree : HashMap Bytes Bytes
  buffer : List Write := []
  bufferSize : Nat := 0
  maxBufferSize : Nat
  lastFlush : Nat
  flushInterval : Nat := 10 ^ 8 -- ns

/-- `write`, or `flush` if there is nothing to write, at its times, and the error of the database -/
structure BatchOp where
  write : Option Write
  now : Nat
  done : Nat
  fault : Option String

namespace BatchWriter
variable (w : BatchWriter) (op : BatchOp)

/-- The buffer is drained first. -/
def flush : Except String Unit × BatchWriter :=
  if w.buffer.isEmpty then (.ok (), w)
  else
    match op.fault with
    | some e => (.error e, { w with buffer := [] })
    | none =>
      (.ok (), { w with
        tree := applyBatch w.tree w.buffer, buffer := [], bufferSize := 0, lastFlush := op.done })

def push (x : Write) : BatchWriter :=
  { w with bufferSize := w.bufferSize + (x.1.length + x.2.length), buffer := w.buffer ++ [x] }

def next : Except String Unit × BatchWriter :=
  match op.write with
  | none => w.flush op
  | some x =>
    let w := w.push x
    if w.maxBufferSize ≤ w.buffer.length ∨ w.flushInterval < op.now - w.lastFlush then w.flush op
    else (.ok (), w)

end BatchWriter

abbrev BatchCall := Call BatchWriter BatchOp (Except String Unit)

/-- the writes that are kept after a call: a failed flush has drained the buffer -/
def keeps (ws : List Write) (c : BatchCall) : List Write :=
  let ws := ws ++ c.input.write.toList
  if c.out.isOk then ws
  else ws.take (ws.length - (c.before.buffer ++ c.input.write.toList).length)

/-- The writes `ws` are in the tree, in their order, but for the last ones in the buffer. -/
def Accounts (tree : HashMap Bytes Bytes) (ws : List Write) (w : BatchWriter) : Prop :=
  ∃ pre, w.tree = applyBatch tree pre ∧ pre ++ w.buffer = ws

/-- the buffer is empty, or stays below the number of writes that empties it -/
def Bounded (size : Nat) (w : BatchWriter) : Prop := w.buffer = [] ∨ w.buffer.length < size

section
variable {tree : HashMap Bytes Bytes} {ws : List Write} {w w' : BatchWriter} {c : BatchCall}

theorem Accounts.flush (h : Accounts tree ws w) (op : BatchOp) :
    Accounts tree (if (w.flush op).1.isOk then ws else ws.take (ws.length - w.buffer.length))
      (w.flush op).2 := by
  obtain ⟨pre, ht, rfl⟩ := h
  unfold BatchWriter.flush
  split
  · exact ⟨pre, ht, rfl⟩
  · cases op.fault with
    | some e => exact ⟨pre, ht, by simp [Except.isOk, Except.toBool]⟩
    | none =>
      have ha : applyBatch w.tree w.buffer = applyBatch tree (pre ++ w.buffer) := by
        rw [ht, applyBatch, applyBatch, applyBatch, foldl_append]
      exact ⟨pre ++ w.buffer, ha, append_nil _⟩

theorem Accounts.step (h : Accounts tree ws w) (hs : CallStep BatchWriter.next w c w') :
    Accounts tree (keeps ws c) w' := by
  rw [keeps, hs.out_eq, hs.after_eq, hs.1, BatchWriter.next]
  cases c.input.write with
  | none =>
    rw [Option.toList_none, append_nil, append_nil]
    exact h.flush c.input
  | some x =>
    obtain ⟨pre, ht, rfl⟩ := h
    have hx : Accounts tree (pre ++ w.buffer ++ [x]) (w.push x) :=
      ⟨pre, ht, (append_assoc ..).symm⟩
    dsimp only
    split
    · exact hx.flush c.input
    · exact hx

/-- A flush empties the buffer, and fails only with the database. -/
theorem BatchWriter.flush_spec (w : BatchWriter) (op : BatchOp) :
    (w.flush op).2.buffer = [] ∧ (w.flush op).2.maxBufferSize = w.maxBufferSize ∧
      (op.fault = none → (w.flush op).1 = .ok ()) := by
  unfold BatchWriter.flush
  split
  · next he => exact ⟨isEmpty_iff.mp he, rfl, fun _ => rfl⟩
  · cases op.fault with
    | some e => exact ⟨rfl, rfl, nofun⟩
    | none => exact ⟨rfl, rfl, fun _ => rfl⟩

theorem BatchWriter.next_spec (w : BatchWriter) (op : BatchOp) :
    (op.write = none → (w.next op).2.buffer = []) ∧ Bounded w.maxBufferSize (w.next op).2 ∧
      (w.next op).2.maxBufferSize = w.maxBufferSize ∧
      (op.fault = none → (w.next op).1 = .ok ()) := by
  unfold BatchWriter.next
  cases op.write with
  | none =>
    obtain ⟨hb, hm, hok⟩ := w.flush_spec op
    exact ⟨fun _ => hb, .inl hb, hm, hok⟩
  | some x =>
    dsimp only
    split
    · obtain ⟨hb, hm, hok⟩ := (w.push x).flush_spec op
      exact ⟨nofun, .inl hb, hm, hok⟩
    · next hn => exact ⟨nofun, .inr (not_le.mp (not_or.mp hn).1), rfl, fun _ => rfl⟩

end

/-- **Batched writes are plain writes** of all that no failed flush has drained, in every run: they
are in the tree but for the last ones, which are in the buffer.  The buffer stays below its size, a
flush empties it, and no call fails unless the database does. -/
theorem batched_writes_kept (tree : HashMap Bytes Bytes) (size start : Nat) {l : List BatchCall}
    {w : BatchWriter}
    (hrun : MachineRun BatchWriter.next { tree, maxBufferSize := size, lastFlush := start } l w) :
    Accounts tree (l.foldl keeps []) w ∧ Bounded size w ∧
      ∀ call ∈ l, (call.input.write = none → call.after.buffer = []) ∧
        (call.input.fault = none → call.out = .ok ()) := by
  refine ⟨?_, ?_, ?_⟩
  · refine Run.logInvariant (P := fun l => Accounts tree (l.foldl keeps [])) ⟨[], rfl, rfl⟩
      (fun l w c w' _ h hs => ?_) hrun
    rw [foldl_concat]
    exact h.step hs
  · refine (Run.invariant (P := fun w => w.maxBufferSize = size ∧ Bounded size w)
      ⟨rfl, .inl rfl⟩ (fun w c w' h hs => ?_) hrun).2
    obtain ⟨-, hb, hm, -⟩ := w.next_spec c.input
    rw [hs.after_eq, hm, ← h.1]
    exact ⟨rfl, hb⟩
  · refine Run.labels (P := fun _ => True) trivial (fun w c w' _ hs => ⟨?_, trivial⟩) hrun
    obtain ⟨he, -, -, hok⟩ := w.next_spec c.input
    rw [hs.out_eq, hs.2.1, hs.after_eq]
    exact ⟨he, hok⟩

/-- two writes that the flush of the second one loses, a write that is flushed, and one more -/
def lostAndFlushed : List BatchOp :=
  [⟨some ([1], [7]), 1, 1, none⟩, ⟨some ([2], [8]), 2, 2, some "io"⟩,
    ⟨some ([3], [9]), 3, 3, none⟩, ⟨none, 4, 4, none⟩, ⟨some ([4], [6]), 5, 5, none⟩]

def flushedRun : List BatchCall × BatchWriter :=
  trace BatchWriter.next { tree := ∅, maxBufferSize := 2, lastFlush := 0 } lostAndFlushed

theorem batched_writes_kept_two :
    Accounts ∅ [([3], [9]), ([4], [6])] flushedRun.2 ∧ flushedRun.2.tree.lookup [3] = some [9] ∧
      flushedRun.2.buffer = [([4], [6])] :=
  ⟨(batched_writes_kept ∅ 2 0 (machineRun_trace _ _ lostAndFlushed)).1, rfl, rfl⟩

end Platform.Dynamic
