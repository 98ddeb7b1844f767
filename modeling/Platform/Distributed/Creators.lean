import Platform.Distributed.Writes
import Platform.Lib.Lossy

/-!
# Listings by creator

The index tree has, for every entry that was ever stored, a key with its creator, its challenge and
its key.  It says nothing about the category, and nothing is ever removed from it.
`list_by_creator` looks up every key it finds there.
-/

namespace Platform.Distributed
open Platform.Core Lib Chain List DistributedStorage OrdMap
open scoped Lib.Bytewise
open Storage (colon ColonFree append_colon_isPrefix utf8_colon)

/-! ## the listing -/

namespace DistributedStorage

/-- `scan_prefix` of the index tree -/
def scanIndex (s : DistributedStorage) (p : Bytes) : List (Bytes × Bytes) :=
  s.indexTree.entries.filter fun e => p.isPrefixOf e.1

def triedCategories : Option Category → List Category
  | some category => [category]
  | none => [.submission, .agent, .evaluation, .consensus, .log]

def getFirst (clock : Category → String → Nat) (challengeId key : String) :
    List Category → DistributedStorage → Option StoredEntry × DistributedStorage
  | [], s => (none, s)
  | category :: categories, s =>
    match s.get (clock category key) category challengeId key with
    | (some entry, s) => (some entry, s)
    | (none, s) => getFirst clock challengeId key categories s

/-- the loop of `list_by_creator` -/
def listLoop (clock : Category → String → Nat) (challengeId : String)
    (categories : List Category) (limit : Nat) :
    List Bytes → List StoredEntry → DistributedStorage → List StoredEntry × DistributedStorage
  | [], results, s => (results, s)
  | keyBytes :: rest, results, s =>
    if limit ≤ results.length then (results, s)
    else
      match getFirst clock challengeId (fromUtf8Lossy keyBytes) categories s with
      | (none, s) => listLoop clock challengeId categories limit rest results s
      | (some entry, s) =>
        listLoop clock challengeId categories limit rest (results ++ [entry]) s

def listByCreator (clock : Category → String → Nat) (s : DistributedStorage)
    (creator challengeId : String) (category : Option Category) (limit : Nat) :
    List StoredEntry × DistributedStorage :=
  let found := s.scanIndex (utf8 ("creator:" ++ creator ++ ":" ++ challengeId ++ ":"))
  listLoop clock challengeId (triedCategories category) limit (found.map Prod.snd) [] s

end DistributedStorage

/-! ## the keys of the index -/

def categoryKey (h : EntryHeader) : Bytes :=
  utf8 h.challengeId ++ colon :: (utf8 h.category.asU8.repr ++ colon :: utf8 h.key)

def creatorKey (creator challengeId key : String) : Bytes :=
  utf8 "creator" ++ colon :: (utf8 creator ++ colon :: (utf8 challengeId ++ colon :: utf8 key))

theorem updateIndexes_eq (h : EntryHeader) (tree : OrdMap Bytes Bytes) :
    updateIndexes h tree = (tree.insert (categoryKey h) (utf8 h.key)).insert
      (creatorKey h.creator h.challengeId h.key) (utf8 h.key) := by
  have hct : utf8 (h.challengeId ++ ":" ++ h.category.asU8.repr ++ ":" ++ h.key) =
      categoryKey h := by
    simp only [utf8_colon, categoryKey, append_assoc, cons_append]
  have hcr : utf8 ("creator:" ++ h.creator ++ ":" ++ h.challengeId ++ ":" ++ h.key) =
      creatorKey h.creator h.challengeId h.key := by
    have ht : "creator:" = "creator" ++ ":" := by decide
    simp only [ht, utf8_append, creatorKey, append_assoc]
    rfl
  unfold updateIndexes
  dsimp only
  rw [hct, hcr]

def IndexKey (k : Bytes) (h : EntryHeader) : Prop :=
  k = categoryKey h ∨ k = creatorKey h.creator h.challengeId h.key

theorem IndexKey.ends {k : Bytes} {h : EntryHeader} (hk : IndexKey k h) :
    ∃ a, k = a ++ colon :: utf8 h.key := by
  rcases hk with rfl | rfl
  · exact ⟨utf8 h.challengeId ++ colon :: utf8 h.category.asU8.repr, by simp [categoryKey]⟩
  · exact ⟨utf8 "creator" ++ colon :: (utf8 h.creator ++ colon :: utf8 h.challengeId),
      by simp [creatorKey]⟩

theorem IndexKey.key_eq {k : Bytes} {h h' : EntryHeader} (hk : IndexKey k h) (hk' : IndexKey k h')
    (hfr : ColonFree h.key) (hfr' : ColonFree h'.key) : h.key = h'.key := by
  obtain ⟨a, ha⟩ := hk.ends
  obtain ⟨a', ha'⟩ := hk'.ends
  exact utf8_inj (append_cons_inj_last hfr hfr' (ha.symm.trans ha'))

def AllColonFree (creator challengeId key : String) : Prop :=
  ColonFree creator ∧ ColonFree challengeId ∧ ColonFree key

/-- what `list_by_creator` looks for -/
def creatorPrefix (creator challengeId : String) : Bytes :=
  utf8 "creator" ++ colon :: (utf8 creator ++ colon :: (utf8 challengeId ++ [colon]))

theorem creatorPrefix_eq (creator challengeId : String) :
    utf8 ("creator:" ++ creator ++ ":" ++ challengeId ++ ":") =
      creatorPrefix creator challengeId := by
  have ht : "creator:" = "creator" ++ ":" := by decide
  simp only [ht, utf8_append, creatorPrefix, append_assoc]
  rfl

section
variable {cr challengeId : String} {k : Bytes} {h : EntryHeader}

theorem creatorPrefix_isPrefix (hcr : ColonFree cr) (hid : ColonFree challengeId)
    (hnm : h.Names AllColonFree) (hk : IndexKey k h) :
    creatorPrefix cr challengeId <+: k ↔
      k = creatorKey cr challengeId h.key ∧ h.creator = cr ∧ h.challengeId = challengeId := by
  obtain ⟨hcr', hid', hk'⟩ := hnm
  have hwr : colon ∉ utf8 "creator" := by decide +kernel
  have hix : colon ∉ utf8 h.category.asU8.repr := by
    cases h.category <;> decide +kernel
  rcases hk with rfl | rfl
  · constructor
    · intro hpr
      obtain ⟨_, hpr⟩ := (append_colon_isPrefix hwr hid').mp hpr
      obtain ⟨_, hpr⟩ := (append_colon_isPrefix hcr hix).mp hpr
      -- the key of an entry would have a `:`
      exact absurd (hpr.subset (mem_append_right _ mem_cons_self)) hk'
    · intro ⟨heq, rfl, rfl⟩
      rw [heq]
      exact ⟨utf8 h.key, by simp [creatorPrefix, creatorKey]⟩
  · rw [creatorPrefix, creatorKey, append_colon_isPrefix hwr hwr,
      append_colon_isPrefix hcr hcr', append_colon_isPrefix hid hid']
    constructor
    · intro ⟨_, hv, hc, _⟩
      rw [utf8_inj hv, utf8_inj hc]
      exact ⟨rfl, rfl, rfl⟩
    · intro ⟨_, hv, hc⟩
      rw [hv, hc]
      exact ⟨rfl, rfl, rfl, nil_prefix⟩

end

/-! ## the index along a run -/

def written (C : Crypto) (compress : Bytes → Bytes) (log : List StorageCall) : List EntryHeader :=
  log.filterMap fun c => (stores C compress c.before c.input).map StoredEntry.header

structure Indexed (hs : List EntryHeader) (s : DistributedStorage) : Prop where
  index : ∀ {k x}, s.indexTree.get k = some x ↔ ∃ h ∈ hs, x = utf8 h.key ∧ IndexKey k h
  stored : ∀ {k e}, s.dataTree.get k = some e → e.header ∈ hs
  cache : CacheStored s
  names : ∀ h ∈ hs, h.Names AllColonFree

section
variable {C : Crypto} {cmp : Bytes → Bytes} {s s' : DistributedStorage} {now : Nat}
  {e : StoredEntry} {hs : List EntryHeader} {who : String}

theorem indexed_new (who : String) : Indexed [] (.new who) where
  index := by simp [new]
  stored := fun h => nomatch h
  cache := fun h => nomatch h
  names := fun _ h => nomatch h

theorem Indexed.kept (hi : Indexed hs s) (hk : Kept s s') : Indexed hs s' where
  index := by
    rw [hk.index]
    exact hi.index
  stored := fun h => hi.stored (hk.data h)
  cache := hk.cache hi.cache
  names := hi.names

theorem get_updateIndexes (h : EntryHeader) (tree : OrdMap Bytes Bytes) (k : Bytes) :
    (IndexKey k h → (updateIndexes h tree).get k = some (utf8 h.key)) ∧
      (¬ IndexKey k h → (updateIndexes h tree).get k = tree.get k) := by
  rw [updateIndexes_eq]
  constructor
  · intro hk
    rw [get_insert]
    split
    · rfl
    · next hne => rw [hk.resolve_right hne, get_insert_self]
  · intro hk
    obtain ⟨hct, hcr⟩ := not_or.mp hk
    rw [get_insert_of_ne _ hcr, get_insert_of_ne _ hct]

theorem Indexed.put (hi : Indexed hs s) (hst : Stored now e s s')
    (hnm : e.header.Names AllColonFree) : Indexed (hs ++ [e.header]) s' := by
  have ha : ∀ h ∈ hs ++ [e.header], h.Names AllColonFree := by
    intro h hh
    rcases mem_append.mp hh with hh | hh
    · exact hi.names h hh
    · rw [mem_singleton.mp hh]
      exact hnm
  refine ⟨?_, ?_, ?_, ha⟩
  · intro k x
    rw [hst.index]
    by_cases hk : IndexKey k e.header
    · rw [(get_updateIndexes _ _ _).1 hk]
      constructor
      · intro hx
        exact ⟨e.header, by simp, (Option.some.inj hx).symm, hk⟩
      · intro ⟨h, hh, hx, hkh⟩
        rw [hx, hkh.key_eq hk (ha h hh).2.2 hnm.2.2]
    · rw [(get_updateIndexes _ _ _).2 hk, hi.index]
      constructor
      · intro ⟨h, hh, hx⟩
        exact ⟨h, mem_append_left _ hh, hx⟩
      · intro ⟨h, hh, hx, hkh⟩
        rcases mem_append.mp hh with hh | hh
        · exact ⟨h, hh, hx, hkh⟩
        · rw [mem_singleton.mp hh] at hkh
          exact absurd hkh hk
  · intro k e' hg
    rw [hst.data, get_insert] at hg
    split at hg
    · cases hg
      exact mem_append_right _ mem_cons_self
    · exact mem_append_left _ (hi.stored hg)
  · intro k e' t hk
    rw [hst.cache] at hk
    rw [hst.data]
    rcases (HashMap.lookup_insert_iff _ _ _ _ _).mp hk with ⟨rfl, heq⟩ | ⟨hne, hk⟩
    · cases heq
      exact get_insert_self _ _ _
    · rw [get_insert_of_ne _ hne]
      exact hi.cache hk

theorem indexed_step {c : StorageCall} (hkeyed : Keyed AllColonFree who s)
    (hi : Indexed hs s) (hnm : c.input.2.Names AllColonFree who)
    (hstep : CallStep (storageNext C cmp) s c s') :
    Indexed (hs ++ written C cmp [c]) s' := by
  have ha : Keyed AllColonFree who (storageNext C cmp s c.input).2 := keyed_step hkeyed c.input hnm
  obtain ⟨rfl, _, hnx⟩ := hstep
  have hs' : s' = (storageNext C cmp c.before c.input).2 := by rw [hnx]
  subst hs'
  cases hsr : stores C cmp c.before c.input with
  | none =>
    have hnl : written C cmp [c] = [] := by simp [written, hsr]
    rw [hnl, append_nil]
    exact hi.kept ((stores_next C cmp _ _).2 hsr)
  | some e =>
    have hon : written C cmp [c] = [e.header] := by simp [written, hsr]
    have hst := (stores_next C cmp _ _).1 hsr
    rw [hon]
    refine hi.put hst (ha.stored (k := e.storageKey) ?_).2
    rw [hst.data, get_insert_self]

theorem indexed_run {log : List StorageCall}
    (hrun : MachineRun (storageNext C cmp) (.new who) log s)
    (hnm : ∀ c ∈ log, c.input.2.Names AllColonFree who) :
    Keyed AllColonFree who s ∧ Indexed (written C cmp log) s := by
  refine Run.logInvariant (P := fun (l : List StorageCall) (s : DistributedStorage) =>
    Keyed AllColonFree who s ∧ Indexed (written C cmp l) s)
    ⟨keyed_new _ who, indexed_new who⟩ ?_ (hrun.restrict hnm)
  intro l s c s' _ ⟨hkeyed, hi⟩ ⟨hstep, hg⟩
  have ha : written C cmp (l ++ [c]) = written C cmp l ++ written C cmp [c] := filterMap_append
  rw [ha]
  refine ⟨?_, indexed_step hkeyed hi hg hstep⟩
  rw [hstep.after_eq]
  exact keyed_step hkeyed c.input hg

end

/-! ## reading an entry -/

section
variable {s : DistributedStorage} {now : Nat} {category : Category} {challengeId key : String}

/-- **What `get` returns** is what is stored, also when it comes from the cache. -/
theorem get_eq_stored (hch : CacheStored s) :
    (s.get now category challengeId key).1 = s.stored category challengeId key := by
  unfold DistributedStorage.get stored
  dsimp only
  split
  · next e t hfr => exact (hch (Option.filter_eq_some_iff.mp hfr).1).symm
  · split
    · next hn => exact hn.symm
    · next e hg => exact hg.symm

theorem dataTree_get : (s.get now category challengeId key).2.dataTree = s.dataTree := by
  unfold DistributedStorage.get
  dsimp only
  split
  · rfl
  · split
    · rfl
    · rfl

end

/-! ## the loop -/

section
variable {s : DistributedStorage} {clk : Category → String → Nat} {category : Category}
  {challengeId : String} {lim : Nat}

theorem getFirst_single (key : String) :
    getFirst clk challengeId key [category] s =
      s.get (clk category key) category challengeId key := by
  unfold getFirst
  split
  · next h => rw [h]
  · next h =>
    rw [h]
    rfl

def found (s : DistributedStorage) (category : Category) (challengeId : String)
    (keys : List String) : List StoredEntry :=
  keys.filterMap fun key => s.stored category challengeId key

/-- **What the loop returns** when the limit leaves room for all entries of the keys. -/
theorem listLoop_eq {keys : List String} (hcc : CacheStored s) {rs : List StoredEntry}
    (hl : rs.length + (found s category challengeId keys).length ≤ lim) :
    (listLoop clk challengeId [category] lim (keys.map utf8) rs s).1 =
      rs ++ found s category challengeId keys := by
  induction keys generalizing s rs with
  | nil => exact (append_nil rs).symm
  | cons key keys ih =>
    rw [map_cons, listLoop]
    by_cases hfl : lim ≤ rs.length
    · -- no key that is left has an entry
      have hn : found s category challengeId (key :: keys) = [] := by
        apply eq_nil_of_length_eq_zero
        omega
      rw [if_pos hfl, hn, append_nil]
    · rw [if_neg hfl, fromUtf8Lossy_utf8, getFirst_single]
      have ho := @get_eq_stored s (clk category key) category challengeId key hcc
      have hdt := @dataTree_get s (clk category key) category challengeId key
      have ha : CacheStored (s.get (clk category key) category challengeId key).2 :=
        (kept_get (clk category key) s category challengeId key).cache hcc
      generalize s.get (clk category key) category challengeId key = got at ho hdt ha
      obtain ⟨o, s'⟩ := got
      have hfn : found s' category challengeId keys = found s category challengeId keys := by
        unfold found stored
        rw [show s'.dataTree = s.dataTree from hdt]
      cases o with
      | none =>
        have hcn : found s category challengeId (key :: keys) =
            found s category challengeId keys := filterMap_cons_none ho.symm
        rw [hcn, ← hfn]
        apply ih ha
        rw [hfn, ← hcn]
        exact hl
      | some e =>
        have hcn : found s category challengeId (key :: keys) =
            e :: found s category challengeId keys := filterMap_cons_some ho.symm
        rw [hcn, ← hfn, append_cons]
        apply ih ha
        rw [hcn, length_cons] at hl
        rw [hfn, length_append, length_singleton]
        omega

end

/-! ## exact listings -/

section
variable {C : Crypto} {compress : Bytes → Bytes} {s : DistributedStorage} {validator v c : String}
  {clock : Category → String → Nat} {category : Category} {limit : Nat} {hs : List EntryHeader}

theorem Indexed.scan (hi : Indexed hs s) (hv : ColonFree v) (hc : ColonFree c) :
    ∃ keys : List String, keys.Nodup ∧
      (s.scanIndex (creatorPrefix v c)).map Prod.snd = keys.map utf8 ∧
      ∀ key, key ∈ keys ↔ ∃ h ∈ hs, h.creator = v ∧ h.challengeId = c ∧ h.key = key := by
  have hsc : ∀ e ∈ s.scanIndex (creatorPrefix v c), ∃ h ∈ hs, h.creator = v ∧
      h.challengeId = c ∧ e = (creatorKey v c h.key, utf8 h.key) := by
    intro e he
    obtain ⟨hmm, hpr⟩ := mem_filter.mp he
    obtain ⟨h, hh, hx, hk⟩ := hi.index.mp (get_eq_some.mpr hmm)
    obtain ⟨hky, hcr, hid⟩ := (creatorPrefix_isPrefix hv hc (hi.names h hh) hk).mp <|
      isPrefixOf_iff_prefix.mp hpr
    exact ⟨h, hh, hcr, hid, Prod.ext hky hx⟩
  refine ⟨(s.scanIndex (creatorPrefix v c)).map fun e => fromUtf8Lossy e.2, ?_, ?_, ?_⟩
  · -- the keys of the tree are different, and they are made from the texts
    have hm : ((s.scanIndex (creatorPrefix v c)).map fun e => fromUtf8Lossy e.2).map
        (creatorKey v c) = (s.scanIndex (creatorPrefix v c)).map Prod.fst := by
      rw [map_map]
      apply map_congr_left
      intro e he
      obtain ⟨h, _, _, _, rfl⟩ := hsc e he
      rw [Function.comp_apply, fromUtf8Lossy_utf8]
    apply List.Nodup.of_map (creatorKey v c)
    rw [hm]
    exact s.indexTree.keys_nodup.sublist (filter_sublist.map Prod.fst)
  · rw [map_map]
    apply map_congr_left
    intro e he
    obtain ⟨h, _, _, _, rfl⟩ := hsc e he
    rw [Function.comp_apply, fromUtf8Lossy_utf8]
  · intro key
    constructor
    · intro hmm
      obtain ⟨e, he, rfl⟩ := mem_map.mp hmm
      obtain ⟨h, hh, hcr, hid, rfl⟩ := hsc e he
      exact ⟨h, hh, hcr, hid, (fromUtf8Lossy_utf8 h.key).symm⟩
    · intro ⟨h, hh, hcr, hid, hky⟩
      subst hcr hid hky
      have hk : IndexKey (creatorKey h.creator h.challengeId h.key) h := .inr rfl
      have hg := get_eq_some.mp (hi.index.mpr ⟨h, hh, rfl, hk⟩)
      refine mem_map.mpr ⟨_, mem_filter.mpr ⟨hg, ?_⟩, fromUtf8Lossy_utf8 h.key⟩
      exact isPrefixOf_iff_prefix.mpr
        ((creatorPrefix_isPrefix hv hc (hi.names h hh) hk).mpr ⟨rfl, rfl, rfl⟩)

variable (hky : Keyed AllColonFree validator s)

section
include hky

theorem Keyed.header_stored (hc : ColonFree c) {key : String} {e : StoredEntry}
    (he : s.stored category c key = some e) :
    e.header.category = category ∧ e.header.challengeId = c ∧ e.header.key = key := by
  obtain ⟨hk, hnm⟩ := hky.stored he
  obtain ⟨h₁, h₂, h₃⟩ := buildKey_inj hc hnm.2.1 hk
  exact ⟨h₁.symm, h₂.symm, h₃.symm⟩

theorem Keyed.stored_header {e : StoredEntry} :
    e ∈ s.dataTree.values ↔
      s.stored e.header.category e.header.challengeId e.header.key = some e := by
  constructor
  · intro he
    obtain ⟨⟨k, _⟩, hmem, rfl⟩ := mem_map.mp he
    have hg := get_eq_some.mpr hmem
    rw [(hky.stored hg).1] at hg
    exact hg
  · intro he
    exact mem_map.mpr ⟨_, get_eq_some.mp he, rfl⟩

theorem Keyed.nodup_found (hc : ColonFree c) {keys : List String}
    (hk : keys.Nodup) : (found s category c keys).Nodup := by
  refine List.Nodup.filterMap ?_ hk
  intro key key' e he he'
  rw [← (hky.header_stored hc he).2.2, ← (hky.header_stored hc he').2.2]

theorem Keyed.length_found_le (hc : ColonFree c) {keys : List String} (hk : keys.Nodup) :
    (found s category c keys).length ≤ s.dataTree.size := by
  have hsb : found s category c keys ⊆ s.dataTree.values := by
    intro e he
    obtain ⟨key, _, hg⟩ := mem_filterMap.mp he
    exact mem_map.mpr ⟨_, get_eq_some.mp hg, rfl⟩
  have hle := ((hky.nodup_found hc hk).subperm hsb).length_le
  rwa [values, length_map] at hle

end

def ListsExactly (clock : Category → String → Nat) (s : DistributedStorage) (v c : String)
    (category : Category) (limit : Nat) : Prop :=
  (s.listByCreator clock v c (some category) limit).1.Nodup ∧
    ∀ e, e ∈ (s.listByCreator clock v c (some category) limit).1 ↔ e ∈ s.dataTree.values ∧
      e.header.category = category ∧ e.header.challengeId = c ∧ e.header.creator = v

/-- **Listings by creator** are exact when every key that the creator has ever stored for the
challenge, in any category, has no entry in the category or one of the creator. -/
theorem creator_listing_iff {log : List StorageCall}
    (hrun : MachineRun (storageNext C compress) (.new validator) log s)
    (hnames : ∀ call ∈ log, call.input.2.Names AllColonFree validator)
    (hv : ColonFree v) (hc : ColonFree c) (hlimit : s.dataTree.size ≤ limit) :
    ListsExactly clock s v c category limit ↔
      ∀ h ∈ written C compress log, h.creator = v → h.challengeId = c →
        ∀ e, s.stored category c h.key = some e → e.header.creator = v := by
  obtain ⟨hky, hi⟩ := indexed_run hrun hnames
  obtain ⟨keys, hnd, hsc, hk⟩ := hi.scan hv hc
  have hls : (s.listByCreator clock v c (some category) limit).1 = found s category c keys := by
    unfold listByCreator
    rw [creatorPrefix_eq]
    dsimp only
    rw [hsc]
    refine listLoop_eq hi.cache ?_
    rw [length_nil, Nat.zero_add]
    exact Nat.le_trans (hky.length_found_le hc hnd) hlimit
  have hm : ∀ e, e ∈ found s category c keys ↔ ∃ key ∈ keys, s.stored category c key = some e :=
    fun e => mem_filterMap
  unfold ListsExactly
  rw [hls]
  constructor
  · intro ⟨_, hex⟩ h hh hcr hid e he
    have hke : h.key ∈ keys := (hk h.key).mpr ⟨h, hh, hcr, hid, rfl⟩
    exact ((hex e).mp ((hm e).mpr ⟨h.key, hke, he⟩)).2.2.2
  · intro ha
    refine ⟨hky.nodup_found hc hnd, fun e => ?_⟩
    rw [hm]
    constructor
    · intro ⟨key, hke, he⟩
      obtain ⟨h, hh, hcr, hid, rfl⟩ := (hk key).mp hke
      obtain ⟨hct, hch, _⟩ := hky.header_stored hc he
      refine ⟨?_, hct, hch, ha h hh hcr hid e he⟩
      exact mem_map.mpr ⟨_, get_eq_some.mp he, rfl⟩
    · intro ⟨he, hct, hch, hcr⟩
      have hg := hky.stored_header.mp he
      rw [hct, hch] at hg
      exact ⟨e.header.key, (hk _).mpr ⟨e.header, hi.stored hg, hcr, hch, rfl⟩, hg⟩

end

/-- the calls of a node of the validator `a` -/
def creatorCalls (inputs : List (Nat × StorageOp)) : List StorageCall × DistributedStorage :=
  trace (storageNext sampleCrypto id) (.new "a") inputs

/-- After one write the listing is exact. -/
theorem creator_listing_single :
    ListsExactly (fun _ _ => 0) (creatorCalls [proposal 1]).2 "a" "c" .submission 1 := by
  have hnm : ∀ call ∈ (creatorCalls [proposal 1]).1, call.input.2.Names AllColonFree "a" := by
    intro call hcl
    cases mem_singleton.mp hcl
    show ColonFree "a" ∧ ColonFree "c" ∧ ColonFree "k"
    decide +kernel
  refine (creator_listing_iff (machineRun_trace _ _ _) hnm (by decide +kernel)
    (by decide +kernel) (by decide +kernel)).mpr ?_
  intro h hh _ _ e he
  have hk : h.key = "k" := by
    have hm : h.key ∈ (written sampleCrypto id (creatorCalls [proposal 1]).1).map
        EntryHeader.key := mem_map_of_mem hh
    exact mem_singleton.mp hm
  rw [hk] at he
  obtain rfl := Option.some.inj he
  decide +kernel

/-- A key that another validator has overwritten is listed for the first one, and so is a key that
the first one has used in another category. -/
theorem listing_shows_other_creator :
    ((creatorCalls [proposal 1, (0, .writeDirect sampleEntry)]).2.listByCreator (fun _ _ => 0)
      "a" "c" (some .submission) 9).1 = [sampleEntry] ∧
    ((creatorCalls [(0, .proposeWrite .agent "c" "k" ⟨.ok [1], .ok [1]⟩ none),
      (0, .writeDirect sampleEntry)]).2.listByCreator (fun _ _ => 0)
        "a" "c" (some .submission) 9).1 = [sampleEntry] ∧
    sampleEntry.header.creator = "v" := by
  decide +kernel

end Platform.Distributed
