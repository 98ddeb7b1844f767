import Platform.Storage.Cursor

/-!
# The range that a query scans

The bounds are taken from the filters of the query, with a look into one level of conjunctions.
Every entry that passes the filters lies within them.
-/

namespace Platform.Storage
open Platform.Core Lib Chain List
open scoped Lib.Bytewise

/-! ## the bounds -/

/-- the `end + 1` of a range does not overflow -/
def QueryFilter.EndsBelow : QueryFilter → Prop
  | .blockRange _ stop => stop ≠ UInt64.ofNat (2 ^ 64 - 1)
  | _ => True

/-- the same for the filters that `determine_scan_range_from_query` looks at -/
def QueryFilter.EndsBelowTop : QueryFilter → Prop
  | .and filters => ∀ f ∈ filters, f.EndsBelow
  | f => f.EndsBelow

def Within (b : UInt64) (bounds : Option UInt64 × Option UInt64) : Prop :=
  (∀ lo ∈ bounds.1, lo ≤ b) ∧ ∀ hi ∈ bounds.2, b < hi

variable {b : UInt64} {ca : Int64} {key : Bytes} {f : QueryFilter} {q : QueryBuilder}
  {bds : Option UInt64 × Option UInt64}

theorem lt_succ_of_le {stop : UInt64} (hsp : stop ≠ UInt64.ofNat (2 ^ 64 - 1)) (h : b ≤ stop) :
    b < stop + 1 := by
  have hlt := stop.toNat_lt
  have hne : stop.toNat ≠ 2 ^ 64 - 1 := fun heq => hsp (UInt64.toNat_inj.mp heq)
  rw [UInt64.le_iff_toNat_le] at h
  rw [UInt64.lt_iff_toNat_lt, UInt64.toNat_add]
  show b.toNat < (stop.toNat + 1) % 2 ^ 64
  omega

theorem satSucc_le {start : UInt64} (h : start < b) : satSucc start ≤ b := by
  have hlt := b.toNat_lt
  rw [UInt64.lt_iff_toNat_lt] at h
  rw [satSucc]
  split
  · exact UInt64.le_of_lt (UInt64.lt_iff_toNat_lt.mpr h)
  · rw [UInt64.le_iff_toNat_le, UInt64.toNat_add]
    show (start.toNat + 1) % 2 ^ 64 ≤ b.toNat
    omega

theorem within_raised {lo : UInt64} (h : Within b bds) (hlo : lo ≤ b) :
    Within b (some (bds.1.elim lo fun m => max m lo), bds.2) := by
  refine ⟨fun lo' hlo' => ?_, h.2⟩
  obtain rfl := Option.some.inj hlo'
  cases ho : bds.1 with
  | none => exact hlo
  | some m =>
    show (if m ≤ lo then lo else m) ≤ b
    split
    · exact hlo
    · exact h.1 m ho

theorem within_lowered {hi : UInt64} (h : Within b bds) (hhi : b < hi) :
    Within b (bds.1, some (bds.2.elim hi fun m => min m hi)) := by
  refine ⟨h.1, fun hi' hhi' => ?_⟩
  obtain rfl := Option.some.inj hhi'
  cases ho : bds.2 with
  | none => exact hhi
  | some m =>
    show b < if m ≤ hi then m else hi
    split
    · exact h.2 m ho
    · exact hhi

theorem within_narrow (hf : f.EndsBelow) (hm : f.matches (some b) ca key = true)
    (h : Within b bds) : Within b (narrow bds f) := by
  cases f with
  | blockBefore m => exact within_lowered h (of_decide_eq_true hm)
  | blockAfter m => exact within_raised h (satSucc_le (of_decide_eq_true hm))
  | blockRange start stop =>
    obtain ⟨hsr, hsp⟩ := (Bool.and_eq_true _ _).mp hm
    exact within_lowered (within_raised h (of_decide_eq_true hsr))
      (lt_succ_of_le hf (of_decide_eq_true hsp))
  | createdBefore | createdAfter | keyPrefix | and | or => exact h

theorem matchesAll_eq_true {l : List QueryFilter}
    (h : QueryFilter.matchesAll (some b) ca key l = true) :
    ∀ f ∈ l, f.matches (some b) ca key = true := by
  induction l with
  | nil => exact fun f hf => absurd hf not_mem_nil
  | cons f l ih =>
    rw [QueryFilter.matchesAll, Bool.and_eq_true] at h
    exact forall_mem_cons.mpr ⟨h.1, ih h.2⟩

theorem within_narrowTop (hf : f.EndsBelowTop) (hm : f.matches (some b) ca key = true)
    (h : Within b bds) : Within b (narrowTop bds f) := by
  cases f with
  | and l =>
    rw [QueryFilter.matches] at hm
    exact foldlRecOn l narrow h fun _ hbn f hmm =>
      within_narrow (hf f hmm) (matchesAll_eq_true hm f hmm) hbn
  | blockBefore | blockAfter | blockRange | createdBefore | createdAfter | keyPrefix | or =>
    exact within_narrow hf hm h

theorem matches_of_buildFilter
    (h : q.buildFilter.all (fun f => f.matches (some b) ca key) = true) :
    ∀ f ∈ q.filters, f.matches (some b) ca key = true := by
  unfold QueryBuilder.buildFilter at h
  split at h
  · next hnl =>
    rw [hnl]
    exact fun f hf => absurd hf not_mem_nil
  · next f hon =>
    rw [hon]
    exact forall_mem_singleton.mpr h
  · exact matchesAll_eq_true h

/-- **No matching entry lies outside the range.** -/
theorem scanRange_sound {C : Crypto} (hen : ∀ f ∈ q.filters, f.EndsBelowTop)
    (h : q.buildFilter.all (fun f => f.matches (some b) ca key) = true) (k : StorageKey) :
    q.scanRange.1 ≤ blockIndexKey C q.ns b k ∧
      q.scanRange.2.all (fun stop => decide (blockIndexKey C q.ns b k < stop)) = true := by
  have hwt : Within b (q.filters.foldl narrowTop (none, none)) :=
    foldlRecOn q.filters narrowTop ⟨nofun, nofun⟩ fun _ hbn f hf =>
      within_narrowTop (hen f hf) (matches_of_buildFilter h f hf) hbn
  constructor
  · refine blockRangeStart_le ?_ k
    cases hlo : (q.filters.foldl narrowTop (none, none)).1 with
    | none => exact UInt64.le_iff_toNat_le.mpr (Nat.zero_le _)
    | some lo => exact hwt.1 lo hlo
  · show (((q.filters.foldl narrowTop (none, none)).2).map (blockRangeStart q.ns)).all _ = true
    cases hhi : (q.filters.foldl narrowTop (none, none)).2 with
    | none => rfl
    | some hi => exact decide_eq_true (blockIndexKey_lt (hwt.2 hi hhi) k)

theorem narrow_hi_zero (h : bds.2 = some 0) (f : QueryFilter) : (narrow bds f).2 = some 0 := by
  have hmn : ∀ b : UInt64, min 0 b = 0 := fun b =>
    if_pos (UInt64.le_iff_toNat_le.mpr (Nat.zero_le _))
  obtain ⟨lo, hi⟩ := bds
  obtain rfl : hi = some 0 := h
  cases f with
  | blockBefore | blockRange => exact congrArg some (hmn _)
  | blockAfter | createdBefore | createdAfter | keyPrefix | and | or => rfl

theorem narrow_hi_of_overflow (hf : ¬ f.EndsBelow) (bds : Option UInt64 × Option UInt64) :
    (narrow bds f).2 = some 0 := by
  obtain ⟨lo, hi⟩ := bds
  cases f with
  | blockRange start stop =>
    obtain rfl := not_not.mp hf
    cases hi with
    | none => rfl
    | some m =>
      have hz : min m (0 : UInt64) = 0 := by
        show (if m ≤ 0 then m else 0) = 0
        split
        · next hle => exact UInt64.le_zero_iff.mp hle
        · rfl
      exact congrArg some hz
  | blockBefore | blockAfter | createdBefore | createdAfter | keyPrefix | and | or =>
    exact absurd trivial hf

theorem foldl_hi_zero {op : Option UInt64 × Option UInt64 → QueryFilter →
      Option UInt64 × Option UInt64} {l : List QueryFilter} (hf : f ∈ l)
    (hset : ∀ bds, (op bds f).2 = some 0) (hkeep : ∀ bds g, bds.2 = some 0 → (op bds g).2 = some 0)
    (bds : Option UInt64 × Option UInt64) : (l.foldl op bds).2 = some 0 := by
  obtain ⟨u, v, rfl⟩ := append_of_mem hf
  rw [foldl_append, foldl_cons]
  exact foldlRecOn v op (hset _) fun bds h g _ => hkeep bds g h

theorem narrowTop_hi_zero (h : bds.2 = some 0) (f : QueryFilter) :
    (narrowTop bds f).2 = some 0 := by
  cases f with
  | and l =>
    exact foldlRecOn (motive := fun bds => bds.2 = some 0) l narrow h
      fun _ h g _ => narrow_hi_zero h g
  | blockBefore | blockAfter | blockRange | createdBefore | createdAfter | keyPrefix | or =>
    exact narrow_hi_zero h _

theorem narrowTop_hi_of_overflow (hf : ¬ f.EndsBelowTop) (bds : Option UInt64 × Option UInt64) :
    (narrowTop bds f).2 = some 0 := by
  cases f with
  | and l =>
    obtain ⟨g, hg, hov⟩ : ∃ g ∈ l, ¬ g.EndsBelow := by
      by_contra hno
      exact hf fun g hg => not_not.mp fun hov => hno ⟨g, hg, hov⟩
    exact foldl_hi_zero hg (narrow_hi_of_overflow hov) (fun _ g h => narrow_hi_zero h g) bds
  | blockRange => exact narrow_hi_of_overflow (f := .blockRange _ _) hf bds
  | blockBefore | blockAfter | createdBefore | createdAfter | keyPrefix | or =>
    exact absurd trivial hf

/-- An end that overflows leaves nothing to scan. -/
theorem blockRange_of_overflow (hf : f ∈ q.filters) (hov : ¬ f.EndsBelowTop) (s : LocalStorage) :
    blockRange s q.scanRange.1 q.scanRange.2 = [] := by
  have hhi : q.scanRange.2 = some (blockRangeStart q.ns 0) := by
    have hz := foldl_hi_zero hf (narrowTop_hi_of_overflow hov)
      (fun _ g h => narrowTop_hi_zero h g) (none, none)
    show ((q.filters.foldl narrowTop (none, none)).2).map _ = _
    rw [hz]
    rfl
  refine filter_eq_nil_iff.mpr fun x hx => ?_
  rw [hhi]
  have hle : q.scanRange.1 ≤ x.1 := of_decide_eq_true (mem_filter.mp hx).2
  have hlo : blockRangeStart q.ns 0 ≤ q.scanRange.1 :=
    blockRangeStart_mono (UInt64.le_iff_toNat_le.mpr (Nat.zero_le _))
  exact fun hlt => not_lt.mpr (hlo.trans hle) (of_decide_eq_true hlt)

/-! ## the answer -/

/-- The keys of a namespace are ordered by block, and then by hash. -/
theorem order_of_lt {C : Crypto} {ns : String} {b' : UInt64} {k k' : StorageKey}
    (h : blockIndexKey C ns b k < blockIndexKey C ns b' k') :
    b < b' ∨ b = b' ∧ (k.hash C).bytes < (k'.hash C).bytes := by
  by_cases hlt : b < b'
  · exact .inl hlt
  by_cases heq : b = b'
  · subst heq
    refine .inr ⟨rfl, lt_of_not_ge fun hge => not_le.mpr h ?_⟩
    rw [blockIndexKey_eq, blockIndexKey_eq, append_le_append_iff_left, append_le_append_iff_left]
    exact cons_le_cons_iff_tail.mpr hge
  · have hgt : b' < b := UInt64.lt_of_le_of_ne (UInt64.not_lt.mp hlt) (Ne.symm heq)
    exact absurd (lt_trans h (blockIndexKey_lt hgt k'))
      (not_lt.mpr (blockRangeStart_le UInt64.le_rfl k))

/-- the entries that a query asks for, ordered by block and then by the hash of the key -/
structure Answer (C : Crypto) (now : Int64) (s : LocalStorage) (q : QueryBuilder)
    (l : List BlockItem) : Prop where
  sorted : l.Pairwise fun i j => i.2.2 < j.2.2 ∨
    i.2.2 = j.2.2 ∧ (i.1.hash C).bytes < (j.1.hash C).bytes
  mem_iff : ∀ k v b, (k, v, b) ∈ l ↔ ∃ e, Asked s q.ns none k e ∧ e.blockId = some b ∧
    e.value = v ∧ v.metadata.isExpired now = false ∧
    q.buildFilter.all (fun f => f.matches (some b) v.metadata.createdAt k.key) = true

theorem Answer.unique {C : Crypto} {now : Int64} {s : LocalStorage} {l l' : List BlockItem}
    (h : Answer C now s q l) (h' : Answer C now s q l') : l = l' := by
  have hns : ∀ i j : BlockItem, (i.2.2 < j.2.2 ∨
      i.2.2 = j.2.2 ∧ (i.1.hash C).bytes < (j.1.hash C).bytes) → ¬ (j.2.2 < i.2.2 ∨
      j.2.2 = i.2.2 ∧ (j.1.hash C).bytes < (i.1.hash C).bytes) := by
    rintro i j (hlt | ⟨heq, hlt⟩) (hgt | ⟨heq', hgt⟩)
    · exact UInt64.lt_asymm hlt hgt
    · exact UInt64.lt_irrefl _ (heq' ▸ hlt)
    · exact UInt64.lt_irrefl _ (heq ▸ hgt)
    · exact lt_asymm hlt hgt
  have hnd : ∀ {l}, Answer C now s q l → l.Nodup := by
    refine fun h => h.sorted.imp ?_
    rintro i j hlt rfl
    exact hns i i hlt hlt
  have hpr : l.Perm l' := (perm_ext_iff_of_nodup (hnd h) (hnd h')).mpr fun ⟨k, v, b⟩ => by
    rw [h.mem_iff, h'.mem_iff]
  exact hpr.eq_of_pairwise (fun i j _ _ hij hji => absurd hji (hns i j hij)) h.sorted h'.sorted

/-- the entry of an index entry, if the query asks for it -/
def answerAt (now : Int64) (s : LocalStorage) (q : QueryBuilder) (x : Bytes × Bytes) :
    Option BlockItem := do
  let (_, b) ← parseBlockIndexKey x.1
  let e ← s.data.get x.2
  let key := x.2.drop (nsPrefix q.ns).length
  if e.value.metadata.isExpired now = false ∧
      q.buildFilter.all (fun f => f.matches (some b) e.value.metadata.createdAt key) = true then
    some (⟨q.ns, key⟩, e.value, b)
  else none

def matchingItems (now : Int64) (s : LocalStorage) (q : QueryBuilder) : List BlockItem :=
  (blockMatching s q.ns).filterMap (answerAt now s q)

/-- The entries that `query` can return have a key that is text, and there are none if a bound of
the query overflows. -/
def QueryBuilder.Lists (q : QueryBuilder) (i : BlockItem) : Prop :=
  (fromUtf8 i.1.key).isSome = true ∧ ∀ f ∈ q.filters, f.EndsBelowTop

section
variable {C : Crypto} {s : LocalStorage} {k : StorageKey} {e : LocalEntry}

theorem answerAt_blockIndexKey (hns : ColonFree k.ns) (hq : k.ns = q.ns)
    (he : s.data.get k.toBytes = some e) (b : UInt64) (now : Int64) :
    answerAt now s q (blockIndexKey C k.ns b k, k.toBytes) =
      if e.value.metadata.isExpired now = false ∧
        q.buildFilter.all (fun f => f.matches (some b) e.value.metadata.createdAt k.key) = true then
        some (k, e.value, b) else none := by
  have hky : k.toBytes.drop (nsPrefix q.ns).length = k.key := by
    have hby : k.toBytes = nsPrefix q.ns ++ k.key := by
      rw [nsPrefix, append_assoc, ← hq]
      rfl
    rw [hby]
    exact drop_left
  rw [answerAt, parseBlockIndexKey_key hns, he]
  show (if _ ∧ q.buildFilter.all (fun f => f.matches (some b) e.value.metadata.createdAt
    (k.toBytes.drop (nsPrefix q.ns).length)) = true then
      some (StorageKey.mk q.ns (k.toBytes.drop (nsPrefix q.ns).length), e.value, b) else none) = _
  rw [hky, ← hq]

theorem blockItemAt_eq_answerAt (hns : ColonFree k.ns) (hq : k.ns = q.ns)
    (he : s.data.get k.toBytes = some e) (hb : e.blockId = some b) (now : Int64) :
    blockItemAt now s q.buildFilter (blockIndexKey C k.ns b k, k.toBytes) =
      (answerAt now s q (blockIndexKey C k.ns b k, k.toBytes)).filter fun i =>
        (fromUtf8 i.1.key).isSome := by
  rw [blockItemAt_blockIndexKey hns he hb, answerAt_blockIndexKey hns hq he]
  split
  · next h =>
    rw [if_pos h.2]
    exact (if_pos h.1).symm
  · next h =>
    split
    · next h' => exact (if_neg fun htx => h ⟨htx, h'⟩).symm
    · rfl

end

section
variable {C : Crypto} {K : StorageKey → Prop} {s : LocalStorage} (hs : Coherent C K s)
  (hK : AllColonFree K) (now : Int64)
include hs hK

theorem scan_narrowed (hen : ∀ f ∈ q.filters, f.EndsBelowTop) :
    ((blockRange s q.scanRange.1 q.scanRange.2).takeWhile fun x =>
        ofNamespace q.ns x.1).filterMap (blockItemAt now s q.buildFilter) =
      (matchingItems now s q).filter fun i => (fromUtf8 i.1.key).isSome := by
  have hsr : nsPrefix q.ns ≤ q.scanRange.1 := by
    refine le_of_isPrefix ?_
    rw [QueryBuilder.scanRange, blockRangeStart_eq]
    exact prefix_append _ _
  have hrn : (blockRange s q.scanRange.1 q.scanRange.2).takeWhile (fun x =>
      ofNamespace q.ns x.1) = (blockMatching s q.ns).filter fun x =>
        decide (q.scanRange.1 ≤ x.1) && q.scanRange.2.all fun stop => decide (x.1 < stop) := by
    have hst : (blockRange s q.scanRange.1 q.scanRange.2).Pairwise fun a b => a.1 < b.1 :=
      (s.blockIndex.sorted.filter _).filter _
    rw [OrdMap.takeWhile_eq_filter (block_ofNamespace hsr) hst
      fun x hx => of_decide_eq_true (mem_filter.mp (mem_filter.mp hx).1).2]
    rw [blockRange, OrdMap.rangeFrom, blockMatching, filter_filter, filter_filter, filter_filter]
    refine filter_congr fun x _ => ?_
    rw [Bool.and_comm, Bool.and_assoc]
    simp only [Bool.and_comm]
  rw [hrn, filterMap_filter, matchingItems, filter_filterMap]
  refine filterMap_congr fun x hx => ?_
  obtain ⟨k, b, e, hk, hns, rfl, he, hb⟩ := hs.of_mem_blockMatching hK hx
  rw [← hns, ← blockItemAt_eq_answerAt (hK k hk) hns he hb]
  by_cases hps : q.buildFilter.all
    (fun f => f.matches (some b) e.value.metadata.createdAt k.key) = true
  · obtain ⟨hlw, hh⟩ := scanRange_sound (C := C) hen hps k
    rw [← hns] at hh hlw
    rw [hh, decide_eq_true hlw]
    rfl
  · rw [blockItemAt_blockIndexKey (hK k hk) he hb,
      if_neg (c := _ ∧ _ ∧ _) fun h => hps h.2.2, ite_self]

theorem answer_matchingItems : Answer C now s q (matchingItems now s q) where
  sorted := by
    refine pairwise_filterMap.mpr ((sorted_blockMatching s q.ns).imp_of_mem ?_)
    intro x y hx hy hlt i hi j hj
    obtain ⟨k, b, e, hk, hns, rfl, he, -⟩ := hs.of_mem_blockMatching hK hx
    obtain ⟨k', b', e', hk', hns', rfl, he', -⟩ := hs.of_mem_blockMatching hK hy
    rw [← hns, answerAt_blockIndexKey (hK k hk) hns he] at hi
    rw [← hns', answerAt_blockIndexKey (hK k' hk') hns' he'] at hj
    obtain rfl := Option.some.inj (Option.ite_none_right_eq_some.mp hi).2
    obtain rfl := Option.some.inj (Option.ite_none_right_eq_some.mp hj).2
    exact order_of_lt hlt
  mem_iff := by
    intro k v b
    constructor
    · intro h
      obtain ⟨x, hx, hi⟩ := mem_filterMap.mp h
      obtain ⟨k, b, e, hk, hns, rfl, he, hb⟩ := hs.of_mem_blockMatching hK hx
      rw [← hns, answerAt_blockIndexKey (hK k hk) hns he] at hi
      obtain ⟨hfn, hi⟩ := Option.ite_none_right_eq_some.mp hi
      cases hi
      exact ⟨e, ⟨hK k hk, hns, nil_prefix, he⟩, hb, rfl, hfn⟩
    · rintro ⟨e, ha, hb, rfl, hfn⟩
      have hx := hs.mem_blockMatching hK (ha.key hs.toIndexCoherent hK) ha.stored hb
      have hat := answerAt_blockIndexKey (C := C) ha.colonFree ha.ns_eq ha.stored b now
      rw [if_pos hfn] at hat
      rw [matchingItems, ← ha.ns_eq]
      exact mem_filterMap.mpr ⟨_, hx, hat⟩

open Classical in
theorem query_eq (hcr : q.cursor = none) : ∃ r, s.query C now q = .ok r ∧
      r.items = (((matchingItems now s q).filter fun i => decide (q.Lists i)).take q.limit).map
        (fun i => (i.1, i.2.1)) ∧
      r.hasMore = decide (q.limit < ((matchingItems now s q).filter fun i =>
        decide (q.Lists i)).length) := by
  have hsc := queryBlockIndexRange_eq hs hK now q.ns q.scanRange.1 q.scanRange.2 q.limit
    q.buildFilter
  have hls : ((blockRange s q.scanRange.1 q.scanRange.2).takeWhile fun x =>
      ofNamespace q.ns x.1).filterMap (blockItemAt now s q.buildFilter) =
      (matchingItems now s q).filter fun i => decide (q.Lists i) := by
    by_cases hen : ∀ f ∈ q.filters, f.EndsBelowTop
    · rw [scan_narrowed hs hK now hen]
      refine filter_congr fun i _ => ?_
      rw [Bool.eq_iff_iff, decide_eq_true_eq]
      exact ⟨fun h => ⟨h, hen⟩, And.left⟩
    · obtain ⟨f, hf, hov⟩ : ∃ f ∈ q.filters, ¬ f.EndsBelowTop := by
        by_contra hno
        exact hen fun f hf => not_not.mp fun hov => hno ⟨f, hf, hov⟩
      rw [blockRange_of_overflow hf hov]
      refine (filter_eq_nil_iff.mpr fun i _ h => ?_).symm
      exact hen (of_decide_eq_true h).2
  have hsr : q.effectiveStart = q.scanRange.1 := by
    rw [QueryBuilder.effectiveStart, hcr]
  rw [hls] at hsc
  rw [LocalStorage.query, hsr, hsc]
  refine ⟨_, rfl, ?_, ?_⟩
  · show (take q.limit (take _ _)).map _ = _
    rw [take_take, Nat.min_eq_left (Nat.le_succ _)]
  · refine decide_eq_decide.mpr ?_
    rw [length_take]
    omega

end

/-- **Narrowing loses nothing.**  A query returns the first entries that it asks for, in the order
of the index, and says whether there are more. -/
theorem query_exact {C : Crypto} {K : StorageKey → Prop} {s : LocalStorage} (hs : Coherent C K s)
    (hK : ∀ k, K k → Legible k) (now : Int64) (q : QueryBuilder)
    (hends : ∀ f ∈ q.filters, f.EndsBelowTop) (hcursor : q.cursor = none) :
    ∃ l, Answer C now s q l ∧ ∃ r, s.query C now q = .ok r ∧
      r.items = (l.take q.limit).map (fun i => (i.1, i.2.1)) ∧
      r.hasMore = decide (q.limit < l.length) := by
  have hfr := allColonFree_of_legible hK
  have ha := answer_matchingItems (q := q) hs hfr now
  have hall : ∀ i ∈ matchingItems now s q, q.Lists i := by
    intro i hi
    obtain ⟨e, has, -⟩ := (ha.mem_iff i.1 i.2.1 i.2.2).mp hi
    exact ⟨(hK _ (has.key hs.toIndexCoherent hfr)).isSome_fromUtf8, hends⟩
  classical
  have hq := query_eq hs hfr now hcursor
  rw [filter_eq_self.mpr fun i hi => decide_eq_true (hall i hi)] at hq
  exact ⟨_, ha, hq⟩

/-- Two bounds on the block, one of them inside a conjunction. -/
theorem query_exact_two :
    ∃ l, Answer tableCrypto 0 (blockStorage 5 6).2
        ⟨"n", [.and [.blockAfter 4, .or []], .blockRange 5 5], 1, 0, none, false⟩ l ∧
      ∃ r, (blockStorage 5 6).2.query tableCrypto 0
          ⟨"n", [.and [.blockAfter 4, .or []], .blockRange 5 5], 1, 0, none, false⟩ = .ok r ∧
        r.items = (l.take 1).map (fun i => (i.1, i.2.1)) ∧ r.hasMore = decide (1 < l.length) := by
  refine query_exact (coherent_blockStorage 5 6) legible_blockStorage 0 _ ?_ rfl
  refine forall_mem_cons.mpr ⟨?_, forall_mem_singleton.mpr ?_⟩
  · exact forall_mem_cons.mpr ⟨trivial, forall_mem_singleton.mpr trivial⟩
  · show (5 : UInt64) ≠ _
    decide

/-! ## offset and order -/

end Platform.Storage
