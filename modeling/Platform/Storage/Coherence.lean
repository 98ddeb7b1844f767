import Platform.Storage.Local

/-!
# The trees of the local storage agree

The data tree decides what the index, the block index and the counts have to hold.
-/

namespace Platform.Storage
open Platform.Core Lib Chain OrdMap
open scoped Lib.Bytewise

def ofNamespace (ns : String) (d : Bytes) : Bool := decide (d.takeWhile (· ≠ colon) = utf8 ns)

theorem ofNamespace_toBytes {k : StorageKey} (hk : ColonFree k.ns) (ns : String) :
    ofNamespace ns k.toBytes = true ↔ k.ns = ns := by
  have htk : k.toBytes.takeWhile (· ≠ colon) = utf8 k.ns := by
    rw [StorageKey.toBytes, List.takeWhile_append_of_pos]
    · simp
    · intro b hb
      exact decide_eq_true fun h => hk (h ▸ hb)
  rw [ofNamespace, decide_eq_true_eq, htk]
  exact ⟨utf8_inj, congrArg utf8⟩

def AllColonFree (K : StorageKey → Prop) : Prop := ∀ k, K k → ColonFree k.ns

structure Separate (C : Crypto) (K : StorageKey → Prop) : Prop where
  colonFree : AllColonFree K
  hash_inj : ∀ k k', K k → K k' → k.hash C = k'.hash C → k = k'

def LocalStorage.blockOf (s : LocalStorage) (k : StorageKey) : Option UInt64 :=
  (s.data.get k.toBytes).bind LocalEntry.blockId

structure IndexCoherent (K : StorageKey → Prop) (s : LocalStorage) : Prop where
  data_keys : ∀ d e, s.data.get d = some e → ∃ k, K k ∧ d = k.toBytes
  index_get : ∀ k, K k → s.index.get k.indexKey = (s.data.get k.toBytes).map fun _ => k.toBytes
  index_keys : ∀ x d, s.index.get x = some d → ∃ k, K k ∧ x = k.indexKey

structure Coherent (C : Crypto) (K : StorageKey → Prop) (s : LocalStorage) : Prop
    extends IndexCoherent K s where
  block_get : ∀ k b, K k → s.blockIndex.get (blockIndexKey C k.ns b k) =
    if s.blockOf k = some b then some k.toBytes else none
  block_keys : ∀ x d, s.blockIndex.get x = some d → ∃ k b, K k ∧ x = blockIndexKey C k.ns b k
  counts : ∀ ns, s.countByNamespace ns = s.data.count (ofNamespace ns)

theorem indexCoherent_inMemory (K : StorageKey → Prop) (nodeId : String) :
    IndexCoherent K (.inMemory nodeId) where
  data_keys := fun _ _ h => nomatch h
  index_get := fun _ _ => rfl
  index_keys := fun _ _ h => nomatch h

theorem coherent_inMemory (C : Crypto) (K : StorageKey → Prop) (nodeId : String) :
    Coherent C K (.inMemory nodeId) where
  toIndexCoherent := indexCoherent_inMemory K nodeId
  block_get := fun _ _ _ => rfl
  block_keys := fun _ _ h => nomatch h
  counts := fun _ => rfl

section
variable {C : Crypto} {K : StorageKey → Prop} {s : LocalStorage} {k k' : StorageKey}

theorem AllColonFree.toBytes_ne (hK : AllColonFree K) (hk : K k) (hk' : K k') (h : k' ≠ k) :
    k'.toBytes ≠ k.toBytes :=
  fun heq => h (toBytes_inj (hK k' hk') (hK k hk) heq)

theorem AllColonFree.indexKey_ne (hK : AllColonFree K) (hk : K k) (hk' : K k') (h : k' ≠ k) :
    k'.indexKey ≠ k.indexKey :=
  fun heq => h (indexKey_inj (hK k' hk') (hK k hk) heq)

variable {b : UInt64} {c : Int64 × LocalOp}
  {l : List (Call LocalStorage (Int64 × LocalOp) (StorageResult LocalOut))} {nodeId : String}
  {x : Bytes}

theorem Separate.blockIndexKey_eq (hK : Separate C K) (hk : K k) (hk' : K k') {b' : UInt64}
    (h : blockIndexKey C k'.ns b' k' = blockIndexKey C k.ns b k) : k' = k ∧ b' = b := by
  obtain ⟨-, hbl, hh⟩ := blockIndexKey_inj (hK.colonFree k' hk') (hK.colonFree k hk) h
  exact ⟨hK.hash_inj k' k hk' hk hh, hbl⟩

/-! ## the block index under the two updates -/

theorem get_dropOldBlock (existing : Option LocalEntry) (bid : Option UInt64) (x : Bytes) :
    (s.dropOldBlock C k existing bid).get x =
      if ∃ b, existing.bind LocalEntry.blockId = some b ∧ bid ≠ some b ∧
        x = blockIndexKey C k.ns b k then none else s.blockIndex.get x := by
  cases existing with
  | none => simp [LocalStorage.dropOldBlock]
  | some old =>
    cases ho : old.blockId with
    | none => simp [LocalStorage.dropOldBlock, ho]
    | some b =>
      by_cases hb : some b = bid
      · simp [LocalStorage.dropOldBlock, ho, ← hb]
      · have hb' : bid ≠ some b := fun h => hb h.symm
        simp [LocalStorage.dropOldBlock, ho, hb, hb', get_erase]

theorem blockOf_written (hK : Separate C K) (hk : K k) (hk' : K k') (old : Option LocalEntry)
    (e : LocalEntry) :
    (s.written C k old e).blockOf k' = if k' = k then e.blockId else s.blockOf k' := by
  unfold LocalStorage.blockOf LocalStorage.written
  by_cases h : k' = k
  · rw [if_pos h, h, get_insert_self]
    rfl
  · rw [if_neg h, get_insert_of_ne _ (hK.colonFree.toBytes_ne hk hk' h)]

theorem blockOf_removed (hK : Separate C K) (hk : K k) (hk' : K k') (e : LocalEntry) :
    (s.removed C k e).blockOf k' = if k' = k then none else s.blockOf k' := by
  unfold LocalStorage.blockOf LocalStorage.removed
  by_cases h : k' = k
  · rw [if_pos h, h, get_erase_self]
    rfl
  · rw [if_neg h, get_erase_of_ne _ (hK.colonFree.toBytes_ne hk hk' h)]

theorem get_blockIndex_written (old : Option LocalEntry) (e : LocalEntry) (x : Bytes) :
    (s.written C k old e).blockIndex.get x =
      if ∃ b, e.blockId = some b ∧ x = blockIndexKey C k.ns b k then some k.toBytes
      else (s.dropOldBlock C k old e.blockId).get x := by
  cases he : e.blockId with
  | none => simp [LocalStorage.written, he]
  | some b => simp [LocalStorage.written, he, get_insert]

theorem get_blockIndex_removed (e : LocalEntry) (x : Bytes) :
    (s.removed C k e).blockIndex.get x =
      if ∃ b, e.blockId = some b ∧ x = blockIndexKey C k.ns b k then none
      else s.blockIndex.get x := by
  cases he : e.blockId with
  | none => simp [LocalStorage.removed, he]
  | some b => simp [LocalStorage.removed, he, get_erase]

/-! ## the updates keep coherence -/

theorem Coherent.block_get_written (hK : Separate C K) (hk : K k) (hs : Coherent C K s)
    (e : LocalEntry) (hk' : K k') (b' : UInt64) :
    (s.written C k (s.data.get k.toBytes) e).blockIndex.get (blockIndexKey C k'.ns b' k') =
      if (s.written C k (s.data.get k.toBytes) e).blockOf k' = some b' then some k'.toBytes
      else none := by
  have hky : ∀ b, blockIndexKey C k'.ns b' k' = blockIndexKey C k.ns b k → k' = k ∧ b' = b :=
    fun b => hK.blockIndexKey_eq hk hk'
  rw [get_blockIndex_written, get_dropOldBlock, blockOf_written hK hk hk', hs.block_get k' b' hk']
  by_cases h : k' = k
  · subst h
    by_cases he : e.blockId = some b'
    · rw [if_pos ⟨b', he, rfl⟩, if_pos rfl, if_pos he]
    · rw [if_neg, if_pos rfl, if_neg he]
      · -- the key of the old block is gone, and no other was there
        by_cases ho : s.blockOf k' = some b'
        · rw [if_pos ⟨b', ho, he, rfl⟩]
        · rw [if_neg ho]
          exact ite_self none
      · rintro ⟨b, hb, heq⟩
        exact he ((hky b heq).2 ▸ hb)
  · rw [if_neg, if_neg, if_neg h]
    · rintro ⟨b, -, -, heq⟩
      exact h (hky b heq).1
    · rintro ⟨b, -, heq⟩
      exact h (hky b heq).1

theorem Coherent.counts_written (hK : Separate C K) (hk : K k) (hs : Coherent C K s)
    (e : LocalEntry) (ns : String) :
    (s.written C k (s.data.get k.toBytes) e).countByNamespace ns =
      (s.written C k (s.data.get k.toBytes) e).data.count (ofNamespace ns) := by
  have hcn := hs.counts ns
  have hns := ofNamespace_toBytes (hK.colonFree k hk) ns
  show ((if s.data.get k.toBytes = none then _ else s.counts).lookup ns).getD 0 =
    (s.data.insert k.toBytes e).count _
  rw [count_insert, ← hcn]
  by_cases hn : s.data.get k.toBytes = none
  · rw [if_pos hn]
    by_cases h : k.ns = ns
    · subst h
      rw [AList.lookup_insert, if_pos ⟨hns.mpr rfl, hn⟩]
      rfl
    · rw [AList.lookup_insert_ne (Ne.symm h), if_neg fun hbt => h (hns.mp hbt.1)]
      rfl
  · rw [if_neg hn, if_neg fun hbt => hn hbt.2]
    rfl

variable {d : Bytes} {e : LocalEntry} {s' : LocalStorage}

theorem IndexCoherent.edited (hK : AllColonFree K) (hk : K k) (hs : IndexCoherent K s)
    (hdt : ∀ d ≠ k.toBytes, s'.data.get d = s.data.get d)
    (hix : ∀ x ≠ k.indexKey, s'.index.get x = s.index.get x)
    (hsl : s'.index.get k.indexKey = (s'.data.get k.toBytes).map fun _ => k.toBytes) :
    IndexCoherent K s' where
  data_keys := by
    intro d e h
    by_cases hd : d = k.toBytes
    · exact ⟨k, hk, hd⟩
    · exact hs.data_keys d e (hdt d hd ▸ h)
  index_get := by
    intro k' hk'
    by_cases h : k' = k
    · rw [h]
      exact hsl
    · rw [hix _ (hK.indexKey_ne hk hk' h), hdt _ (hK.toBytes_ne hk hk' h), hs.index_get k' hk']
  index_keys := by
    intro x d h
    by_cases hx : x = k.indexKey
    · exact ⟨k, hk, hx⟩
    · exact hs.index_keys x d (hix x hx ▸ h)

theorem IndexCoherent.written (hK : AllColonFree K) (hk : K k) (hs : IndexCoherent K s)
    (old : Option LocalEntry) (e : LocalEntry) :
    IndexCoherent K (s.written C k old e) := by
  refine hs.edited hK hk (fun _ hd => get_insert_of_ne _ hd _)
    (fun _ hx => get_insert_of_ne _ hx _) ?_
  show (s.index.insert _ _).get _ = ((s.data.insert _ _).get _).map _
  rw [get_insert_self, get_insert_self]
  rfl

theorem Coherent.written (hK : Separate C K) (hk : K k) (hs : Coherent C K s) (e : LocalEntry) :
    Coherent C K (s.written C k (s.data.get k.toBytes) e) where
  toIndexCoherent := hs.toIndexCoherent.written hK.colonFree hk _ e
  block_get := fun k' b' hk' => hs.block_get_written hK hk e hk' b'
  block_keys := by
    intro x d h
    rw [get_blockIndex_written] at h
    split at h
    · next hx =>
      obtain ⟨b, -, hx⟩ := hx
      exact ⟨k, b, hk, hx⟩
    · rw [get_dropOldBlock] at h
      split at h
      · cases h
      · exact hs.block_keys x d h
  counts := hs.counts_written hK hk e

theorem Coherent.counts_removed (hK : Separate C K) (hk : K k) (hs : Coherent C K s)
    (he : s.data.get k.toBytes = some e) (ns : String) : (s.removed C k e).countByNamespace ns =
    (s.removed C k e).data.count (ofNamespace ns) := by
  have hcn := hs.counts ns
  have her := count_erase (ofNamespace ns) s.data k.toBytes
  have hns := ofNamespace_toBytes (hK.colonFree k hk) ns
  rw [← hcn] at her
  have hoh : k.ns ≠ ns → (s.removed C k e).counts.lookup ns = s.counts.lookup ns := by
    intro h
    unfold LocalStorage.removed
    cases hlk : s.counts.lookup k.ns with
    | none => rfl
    | some n => exact AList.lookup_insert_ne (Ne.symm h)
  show ((s.removed C k e).counts.lookup ns).getD 0 = (s.data.erase k.toBytes).count _
  unfold LocalStorage.countByNamespace at her
  by_cases h : k.ns = ns
  · subst h
    rw [if_pos ⟨hns.mpr rfl, by rw [he]; exact Option.some_ne_none e⟩] at her
    cases hlk : s.counts.lookup k.ns with
    | none =>
      rw [hlk] at her
      simp at her
    | some n =>
      have hct : (s.removed C k e).counts.lookup k.ns = some (n - 1) := by
        unfold LocalStorage.removed
        rw [hlk]
        exact AList.lookup_insert s.counts
      rw [hlk, Option.getD_some] at her
      rw [hct, Option.getD_some]
      omega
  · rw [if_neg fun hbt => h (hns.mp hbt.1)] at her
    rw [hoh h]
    exact her.symm

theorem IndexCoherent.removed (hK : AllColonFree K) (hk : K k) (hs : IndexCoherent K s)
    (e : LocalEntry) : IndexCoherent K (s.removed C k e) := by
  refine hs.edited hK hk (fun _ hd => get_erase_of_ne _ hd) (fun _ hx => get_erase_of_ne _ hx) ?_
  show (s.index.erase _).get _ = ((s.data.erase _).get _).map _
  rw [get_erase_self, get_erase_self]
  rfl

theorem Coherent.removed (hK : Separate C K) (hk : K k) (hs : Coherent C K s)
    (he : s.data.get k.toBytes = some e) : Coherent C K (s.removed C k e) where
  toIndexCoherent := hs.toIndexCoherent.removed hK.colonFree hk e
  block_get := by
    intro k' b' hk'
    have hbl : s.blockOf k = e.blockId := by
      rw [LocalStorage.blockOf, he]
      rfl
    rw [get_blockIndex_removed, blockOf_removed hK hk hk', hs.block_get k' b' hk']
    by_cases h : k' = k
    · subst h
      rw [if_pos rfl, hbl]
      by_cases hb : e.blockId = some b'
      · rw [if_pos ⟨b', hb, rfl⟩]
        rfl
      · rw [if_neg hb]
        exact ite_self none
    · rw [if_neg, if_neg h]
      rintro ⟨b, -, heq⟩
      exact h (hK.blockIndexKey_eq hk hk' heq).1
  block_keys := by
    intro x d h
    rw [get_blockIndex_removed] at h
    split at h
    · cases h
    · exact hs.block_keys x d h
  counts := hs.counts_removed hK hk he

theorem IndexCoherent.effect (hK : AllColonFree K) (hs : IndexCoherent K s) (hk : K c.2.key)
    (h : Effect C s c s') : IndexCoherent K s' := by
  cases h with
  | same => exact hs
  | put _ _ | putWithBlock _ _ | markReplicated _ => exact hs.written hK hk _ _
  | expired _ _ | delete _ => exact hs.removed hK hk _

theorem Coherent.effect (hK : Separate C K) (hs : Coherent C K s) (hk : K c.2.key)
    (h : Effect C s c s') : Coherent C K s' := by
  cases h with
  | same => exact hs
  | put hr _ | putWithBlock hr _ | markReplicated hr =>
    rw [← hr]
    exact hs.written hK hk _
  | expired hr _ => exact hs.removed hK hk hr
  | delete hr => exact hs.removed hK hk hr

def keysOf (l : List (Call LocalStorage (Int64 × LocalOp) (StorageResult LocalOut)))
    (k : StorageKey) : Prop := ∃ c ∈ l, c.input.2.key = k

theorem indexCoherent_of_run (hK : AllColonFree (keysOf l))
    (h : MachineRun (localNext C) (.inMemory nodeId) l s) :
    IndexCoherent (keysOf l) s := by
  refine Run.guarded (indexCoherent_inMemory _ nodeId) ?_ h
    (fun c hc => (⟨c, hc, rfl⟩ : keysOf l _))
  intro s c s' hs hk hstep
  rw [hstep.after_eq]
  exact hs.effect hK hk (effect_of_next C s c.input)

theorem coherent_of_run (hK : Separate C (keysOf l))
    (h : MachineRun (localNext C) (.inMemory nodeId) l s) :
    Coherent C (keysOf l) s := by
  refine Run.guarded (coherent_inMemory C _ nodeId) ?_ h (fun c hc => (⟨c, hc, rfl⟩ : keysOf l _))
  intro s c s' hs hk hstep
  rw [hstep.after_eq]
  exact hs.effect hK hk (effect_of_next C s c.input)

/-! ## what coherence says of the trees -/

theorem Coherent.index_exactly_one (hK : Separate C K) (hs : Coherent C K s)
    (h : s.data.get d = some e) : ∃! x, s.index.get x = some d := by
  obtain ⟨k, hk, rfl⟩ := hs.data_keys d e h
  refine ⟨k.indexKey, ?_, fun x hx => ?_⟩
  · show s.index.get k.indexKey = _
    rw [hs.index_get k hk, h]
    rfl
  · obtain ⟨k', hk', rfl⟩ := hs.index_keys x _ hx
    rw [hs.index_get k' hk'] at hx
    obtain ⟨-, -, hby⟩ := Option.map_eq_some_iff.mp hx
    rw [toBytes_inj (hK.colonFree k' hk') (hK.colonFree k hk) hby]

theorem Coherent.index_points (hs : Coherent C K s) (h : s.index.get x = some d) :
    ∃ e, s.data.get d = some e := by
  obtain ⟨k, hk, rfl⟩ := hs.index_keys x d h
  rw [hs.index_get k hk] at h
  obtain ⟨e, he, rfl⟩ := Option.map_eq_some_iff.mp h
  exact ⟨e, he⟩

theorem Coherent.block_points (hs : Coherent C K s) (h : s.blockIndex.get x = some d) :
    ∃ k b e, K k ∧ d = k.toBytes ∧ x = blockIndexKey C k.ns b k ∧ s.data.get d = some e ∧
      e.blockId = some b := by
  obtain ⟨k, b, hk, rfl⟩ := hs.block_keys x d h
  rw [hs.block_get k b hk] at h
  split at h
  · next hbl =>
    cases h
    obtain ⟨e, he, hb⟩ := Option.bind_eq_some_iff.mp hbl
    exact ⟨k, b, e, hk, rfl, rfl, he, hb⟩
  · cases h

theorem Coherent.block_exactly_one (hK : Separate C K) (hs : Coherent C K s)
    (h : s.data.get d = some e) (hb : e.blockId = some b) :
    ∃! x, s.blockIndex.get x = some d := by
  obtain ⟨k, hk, rfl⟩ := hs.data_keys d e h
  have hbl : s.blockOf k = some b := by
    rw [LocalStorage.blockOf, h]
    exact hb
  refine ⟨blockIndexKey C k.ns b k, ?_, fun x hx => ?_⟩
  · show s.blockIndex.get _ = _
    rw [hs.block_get k b hk, if_pos hbl]
  · obtain ⟨k', b', e', hk', hby, rfl, he', hb'⟩ := hs.block_points hx
    obtain rfl := toBytes_inj (hK.colonFree k hk) (hK.colonFree k' hk') hby
    rw [h] at he'
    cases he'
    rw [hb] at hb'
    cases hb'
    rfl

/-- In every run on a storage in memory, with namespaces without `:` and keys whose hashes do not
collide, the index holds exactly one key for each entry and points to it, the block index exactly
one for each entry with a block, under that block, and nothing else, and the counts are right. -/
theorem trees_coherent (nodeId : String)
    (l : List (Call LocalStorage (Int64 × LocalOp) (StorageResult LocalOut)))
    (hrun : MachineRun (localNext C) (.inMemory nodeId) l s)
    (hcolon : ∀ c ∈ l, ColonFree c.input.2.key.ns)
    (hhash : ∀ c ∈ l, ∀ c' ∈ l, c.input.2.key.hash C = c'.input.2.key.hash C →
      c.input.2.key = c'.input.2.key) :
    (∀ d e, s.data.get d = some e → ∃! x, s.index.get x = some d) ∧
    (∀ x d, s.index.get x = some d → ∃ e, s.data.get d = some e) ∧
    (∀ d e b, s.data.get d = some e → e.blockId = some b → ∃! x, s.blockIndex.get x = some d) ∧
    (∀ x d, s.blockIndex.get x = some d → ∃ k b e, d = k.toBytes ∧
      x = blockIndexKey C k.ns b k ∧ s.data.get d = some e ∧ e.blockId = some b) ∧
    ∀ ns, s.countByNamespace ns = s.data.count (ofNamespace ns) := by
  have hK : Separate C (keysOf l) := by
    constructor
    · rintro k ⟨c, hc, rfl⟩
      exact hcolon c hc
    · rintro k k' ⟨c, hc, rfl⟩ ⟨c', hc', rfl⟩ h
      exact hhash c hc c' hc' h
  have hs := coherent_of_run hK hrun
  refine ⟨fun d e h => hs.index_exactly_one hK h, fun x d h => hs.index_points h,
    fun d e b h hb => hs.block_exactly_one hK h hb, fun x d h => ?_, hs.counts⟩
  obtain ⟨k, b, e, -, hd, hx, he, hb⟩ := hs.block_points h
  exact ⟨k, b, e, hd, hx, he, hb⟩

end

/-- Two keys, one of which moves from block 5 to block 6 and one of which expires. -/
def sampleOps : List (Int64 × LocalOp) :=
  [(0, .putWithBlock ⟨"a", [1]⟩ [10] 5 .default), (1, .put ⟨"b", [2]⟩ [20] ⟨false, 1, none⟩),
    (2, .putWithBlock ⟨"a", [1]⟩ [11] 6 .default), (3, .markReplicated ⟨"a", [1]⟩ "peer"),
    (5000, .get ⟨"b", [2]⟩)]

def sampleTrace := trace (localNext sampleCrypto) (.inMemory "node") sampleOps

/-- Afterwards one entry is left, under block 6. -/
theorem trees_coherent_sample :
    sampleTrace.2.data.keys = [StorageKey.toBytes ⟨"a", [1]⟩] ∧
    sampleTrace.2.blockIndex.keys = [blockIndexKey sampleCrypto "a" 6 ⟨"a", [1]⟩] ∧
    ∀ ns, sampleTrace.2.countByNamespace ns = sampleTrace.2.data.count (ofNamespace ns) :=
  ⟨by decide +kernel, by decide +kernel,
    (trees_coherent "node" sampleTrace.1 (machineRun_trace _ _ _) (by decide +kernel)
      (by decide +kernel)).2.2.2.2⟩

end Platform.Storage
