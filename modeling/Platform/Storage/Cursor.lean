import Platform.Lib.BigEndian
import Platform.Storage.Query

/-!
# Paging through the block index with cursors
-/

namespace Platform.Storage
open Platform.Core Lib Chain List BinCodec
open scoped Lib.Bytewise

/-! ## block index keys -/

/-- the bytes that all keys of a namespace start with -/
def nsPrefix (ns : String) : Bytes := utf8 ns ++ [colon]

variable {ns : String} {b : UInt64} {x : Bytes × Bytes} {now : Int64}

theorem takeWhile_ns (hns : ColonFree ns) (l : Bytes) :
    (utf8 ns ++ colon :: l).takeWhile (· ≠ colon) = utf8 ns := by
  rw [takeWhile_append_of_pos]
  · simp
  · intro b hb
    exact decide_eq_true fun h => hns (h ▸ hb)

theorem ofNamespace_append (hns : ColonFree ns) (l : Bytes) :
    ofNamespace ns (nsPrefix ns ++ l) = true := by
  rw [ofNamespace, decide_eq_true_eq, nsPrefix, append_assoc]
  exact takeWhile_ns hns l

theorem eq_of_ofNamespace {x : Bytes} (h : ofNamespace ns x = true) :
    ColonFree ns ∧ (x = utf8 ns ∨ ∃ l, x = nsPrefix ns ++ l) := by
  have htk : x.takeWhile (· ≠ colon) = utf8 ns := of_decide_eq_true h
  have hfr : ColonFree ns := by
    intro hm
    rw [← htk] at hm
    have hne := mem_takeWhile_imp hm
    simp at hne
  refine ⟨hfr, ?_⟩
  have hsp := takeWhile_append_dropWhile (p := fun b => decide (b ≠ colon)) (l := x)
  rw [htk] at hsp
  cases hdr : x.dropWhile (fun b => decide (b ≠ colon)) with
  | nil =>
    rw [hdr, append_nil] at hsp
    exact .inl hsp.symm
  | cons c l =>
    have hc : c = colon := by
      have hh := head?_dropWhile_not (fun b => decide (b ≠ colon)) x
      rw [hdr] at hh
      simpa using hh
    rw [hdr, hc] at hsp
    refine .inr ⟨l, ?_⟩
    rw [nsPrefix, append_assoc]
    exact hsp.symm

theorem block_ofNamespace {start : Bytes} (hsr : nsPrefix ns ≤ start) :
    OrdMap.Block start (ofNamespace ns) := by
  intro a b hle hlt ha
  rw [Bool.eq_false_iff] at ha ⊢
  intro hb
  obtain ⟨hfr, rfl | ⟨l, rfl⟩⟩ := eq_of_ofNamespace hb
  · -- the bare namespace comes before all keys of it
    have hbr : utf8 ns ≤ nsPrefix ns := le_of_isPrefix (prefix_append _ _)
    exact absurd (lt_of_le_of_lt (le_trans hsr hle) hlt) (not_lt.mpr hbr)
  · obtain ⟨c, rfl⟩ := isPrefix_of_between (le_trans hsr hle) hlt
    exact ha (ofNamespace_append hfr c)

theorem fromBeBytes_beBytes (b : UInt64) : fromBeBytes (beBytes b) = b := by
  have hlt := b.toNat_lt
  rw [fromBeBytes, beBytes, reverse_reverse, leNat_leBytes, Nat.mod_eq_of_lt (by omega)]
  exact UInt64.ofNat_toNat

theorem blockIndexKey_eq (C : Crypto) (ns : String) (b : UInt64) (k : StorageKey) :
    blockIndexKey C ns b k = nsPrefix ns ++ (beBytes b ++ colon :: (k.hash C).bytes) := by
  rw [nsPrefix, append_assoc]
  rfl

theorem append_le_append_iff_left {p a b : Bytes} : p ++ a ≤ p ++ b ↔ a ≤ b := by
  induction p with
  | nil => exact Iff.rfl
  | cons x p ih => exact cons_le_cons_iff_tail.trans ih

theorem beBytes_lt {x y : UInt64} (h : x < y) : beBytes x < beBytes y := by
  have hvl : ∀ z : UInt64, beNat (beBytes z) = z.toNat := by
    intro z
    have hz := z.toNat_lt
    rw [beBytes, beNat_reverse, leNat_leBytes, Nat.mod_eq_of_lt (by omega)]
  apply (beNat_lt_iff (by simp)).mp
  rw [hvl, hvl]
  exact UInt64.lt_iff_toNat_lt.mp h

theorem blockRangeStart_eq (ns : String) (b : UInt64) :
    blockRangeStart ns b = nsPrefix ns ++ beBytes b := by
  rw [nsPrefix, append_assoc]
  rfl

theorem blockRangeStart_mono {b' : UInt64} (h : b ≤ b') :
    blockRangeStart ns b ≤ blockRangeStart ns b' := by
  rw [blockRangeStart_eq, blockRangeStart_eq, append_le_append_iff_left]
  rcases UInt64.le_iff_lt_or_eq.mp h with hlt | rfl
  · exact (beBytes_lt hlt).le
  · exact le_rfl

theorem blockRangeStart_le {C : Crypto} {b' : UInt64} (h : b ≤ b') (k : StorageKey) :
    blockRangeStart ns b ≤ blockIndexKey C ns b' k := by
  refine (blockRangeStart_mono h).trans ?_
  rw [blockRangeStart_eq, blockIndexKey_eq, append_le_append_iff_left]
  exact le_of_isPrefix (prefix_append _ _)

theorem blockIndexKey_lt {C : Crypto} {b' : UInt64} (h : b < b') (k : StorageKey) :
    blockIndexKey C ns b k < blockRangeStart ns b' := by
  rw [blockRangeStart_eq, blockIndexKey_eq]
  exact append_left_lt (append_lt (by simp) (beBytes_lt h) _)

theorem parseBlockIndexKey_key {C : Crypto} (hns : ColonFree ns) (b : UInt64)
    (k : StorageKey) : parseBlockIndexKey (blockIndexKey C ns b k) = some (ns, b) := by
  have hdr : (blockIndexKey C ns b k).dropWhile (· ≠ colon) =
      colon :: (beBytes b ++ colon :: (k.hash C).bytes) := by
    rw [blockIndexKey, dropWhile_append_of_pos]
    · simp
    · intro c hc
      exact decide_eq_true fun h => hns (h ▸ hc)
  have hl : ¬ (beBytes b ++ colon :: (k.hash C).bytes).length < 8 + 1 + 32 := by
    rw [length_append, length_cons, length_beBytes, (k.hash C).len]
    omega
  have hsp : (beBytes b ++ colon :: (k.hash C).bytes)[8]? = some colon := by
    rw [getElem?_append_right (by simp)]
    simp
  have htk : (beBytes b ++ colon :: (k.hash C).bytes).take 8 = beBytes b :=
    take_left' (length_beBytes b)
  have hnm : (blockIndexKey C ns b k).takeWhile (· ≠ colon) = utf8 ns := takeWhile_ns hns _
  unfold parseBlockIndexKey
  rw [hdr, hnm]
  simp only [fromUtf8_utf8]
  rw [if_neg hl, if_neg (not_not.mpr hsp), htk, fromBeBytes_beBytes]

/-! ## the loop -/

variable {limit : Nat} {s : LocalStorage} {filter : Option QueryFilter}

/-- what the loop makes of an index entry -/
def blockItemAt (now : Int64) (s : LocalStorage) (filter : Option QueryFilter)
    (x : Bytes × Bytes) : Option BlockItem := do
  let (_, b) ← parseBlockIndexKey x.1
  let e ← s.data.get x.2
  let k ← parseKey x.2
  if e.value.metadata.isExpired now = false ∧ passes filter x.2 e = true then
    some (k, e.value, b)
  else none

theorem blockItemAt_eq {ns' : String} {k : StorageKey} {e : LocalEntry}
    (hpr : parseBlockIndexKey x.1 = some (ns', b)) (he : s.data.get x.2 = some e)
    (hk : parseKey x.2 = some k) : blockItemAt now s filter x =
      if e.value.metadata.isExpired now = false ∧ passes filter x.2 e = true then
        some (k, e.value, b) else none := by
  rw [blockItemAt, hpr, he, hk]
  rfl

theorem queryScan_cons (hpr : parseBlockIndexKey x.1 = some (ns, b))
    (rest : List (Bytes × Bytes)) (rs : List BlockItem) :
    (blockItemAt now s filter x = none ∧ queryScan now s ns limit filter (x :: rest) rs =
      queryScan now s ns limit filter rest rs) ∨
    ∃ i, blockItemAt now s filter x = some i ∧
      queryScan now s ns limit filter (x :: rest) rs =
        if limit ≤ (rs ++ [i]).length then rs ++ [i]
        else queryScan now s ns limit filter rest (rs ++ [i]) := by
  obtain ⟨ik, dk⟩ := x
  rw [queryScan]
  simp only at hpr
  simp only [hpr, ne_eq, not_true_eq_false, if_false]
  cases he : s.data.get dk with
  | none =>
    refine .inl ⟨?_, rfl⟩
    rw [blockItemAt, hpr, he]
    rfl
  | some e =>
    cases hk : parseKey dk with
    | none =>
      refine .inl ⟨?_, by simp⟩
      rw [blockItemAt, hpr, he, hk]
      rfl
    | some k =>
      rw [blockItemAt_eq hpr he hk]
      cases hlv : e.value.metadata.isExpired now with
      | true => exact .inl ⟨by simp, by simp [hlv]⟩
      | false =>
        cases hps : passes filter dk e with
        | false => exact .inl ⟨by simp, by simp [hlv, hps]⟩
        | true => exact .inr ⟨(k, e.value, b), by simp, by simp [hlv, hps]⟩

theorem queryScan_spec (r : List (Bytes × Bytes))
    (hpr : ∀ x ∈ r, ∃ ns' b, parseBlockIndexKey x.1 = some (ns', b) ∧
      (ofNamespace ns x.1 = true ↔ ns' = ns))
    (rs : List BlockItem) (hl : rs.length < limit) :
    queryScan now s ns limit filter r rs = rs ++
      ((r.takeWhile fun x => ofNamespace ns x.1).filterMap (blockItemAt now s filter)).take
        (limit - rs.length) := by
  induction r generalizing rs with
  | nil => simp [queryScan]
  | cons x r ih =>
    obtain ⟨ns', b, hx, hns⟩ := hpr x mem_cons_self
    have ih := ih fun y hy => hpr y (mem_cons_of_mem x hy)
    by_cases hs : ns' = ns
    · subst hs
      rw [takeWhile_cons_of_pos (p := fun x : Bytes × Bytes => ofNamespace ns' x.1) (hns.mpr rfl)]
      obtain ⟨hn, hsk⟩ | ⟨i, hi, hps⟩ := queryScan_cons hx r rs
      · rw [hsk, filterMap_cons_none hn]
        exact ih rs hl
      · obtain ⟨m, hm⟩ : ∃ m, limit - rs.length = m + 1 := ⟨limit - rs.length - 1, by omega⟩
        rw [hps, filterMap_cons_some hi, hm, take_succ_cons]
        by_cases hfl : limit ≤ (rs ++ [i]).length
        · -- the page is full, so nothing is taken after `x`
          have hz : m = 0 := by
            rw [length_append, length_singleton] at hfl
            omega
          rw [if_pos hfl, hz, take_zero]
        · have hr : limit - (rs ++ [i]).length = m := by
            rw [length_append, length_singleton]
            omega
          rw [if_neg hfl, ih (rs ++ [i]) (by omega), hr, append_assoc]
          rfl
    · rw [takeWhile_cons_of_neg (by rw [hns]; exact hs)]
      obtain ⟨ik, dk⟩ := x
      simp only at hx
      rw [queryScan]
      simp [hx, hs]

/-! ## what a cursor stands for -/

def pagedQuery (ns : String) (limit : Nat) (t : Option QueryCursor) : QueryBuilder :=
  ⟨ns, [], limit, 0, t, false⟩

section
variable {C : Crypto} {K : StorageKey → Prop} {s : LocalStorage} {ns : String} {limit : Nat}

def blockMatching (s : LocalStorage) (ns : String) : List (Bytes × Bytes) :=
  s.blockIndex.entries.filter fun x => ofNamespace ns x.1

def blockScanFrom (s : LocalStorage) (ns : String) (t : Option QueryCursor) :
    List (Bytes × Bytes) :=
  (s.blockIndex.rangeFrom (pagedQuery ns 0 t).effectiveStart).takeWhile fun x => ofNamespace ns x.1

/-- the entries between the two ends of a scan -/
def blockRange (s : LocalStorage) (start : Bytes) (stop : Option Bytes) : List (Bytes × Bytes) :=
  (s.blockIndex.rangeFrom start).filter fun x => stop.all fun c => decide (x.1 < c)

theorem sorted_blockMatching (s : LocalStorage) (ns : String) :
    (blockMatching s ns).Pairwise fun a b => a.1 < b.1 := s.blockIndex.sorted.filter _

theorem raiseLast_append_cons (p : Bytes) (b : UInt8) (l : Bytes) :
    raiseLast (p ++ b :: l) = p ++ raiseLast (b :: l) := by
  obtain ⟨u, c, hc⟩ : ∃ u c, b :: l = u ++ [c] := by
    rcases eq_nil_or_concat (b :: l) with h | ⟨u, c, h⟩
    · cases h
    · exact ⟨u, c, by rw [h, concat_eq_append]⟩
  rw [hc]
  simp [raiseLast]

theorem nsPrefix_le_start (t : Option QueryCursor) :
    nsPrefix ns ≤ (pagedQuery ns 0 t).effectiveStart := by
  have hrn : nsPrefix ns <+: (pagedQuery ns 0 t).scanRange.1 := by
    show nsPrefix ns <+: utf8 ns ++ colon :: beBytes 0
    exact ⟨beBytes 0, by rw [nsPrefix, append_assoc]; rfl⟩
  apply le_of_isPrefix
  cases t with
  | none => exact hrn
  | some c =>
    obtain ⟨block, hash, ns'⟩ := c
    cases block with
    | none => exact hrn
    | some b =>
      cases hash with
      | none => exact hrn
      | some h =>
        show nsPrefix ns <+: raiseLast (utf8 ns ++ colon :: (beBytes b ++ colon :: h))
        have hsp : utf8 ns ++ colon :: (beBytes b ++ colon :: h) =
            nsPrefix ns ++ beBytes b ++ colon :: h := by
          rw [nsPrefix, append_assoc, append_assoc]
          rfl
        rw [hsp, raiseLast_append_cons, append_assoc]
        exact prefix_append _ _

theorem blockScanFrom_eq (t : Option QueryCursor) : blockScanFrom s ns t =
    (blockMatching s ns).filter fun x => decide ((pagedQuery ns 0 t).effectiveStart ≤ x.1) := by
  rw [blockScanFrom, s.blockIndex.scan_eq_filter (block_ofNamespace (nsPrefix_le_start t)),
    blockMatching, filter_filter]

theorem Coherent.block_entry (hs : Coherent C K s) (hx : x ∈ s.blockIndex.entries) : ∃ k b e, K k ∧
      x = (blockIndexKey C k.ns b k, k.toBytes) ∧ s.data.get k.toBytes = some e ∧
      e.blockId = some b := by
  obtain ⟨k, b, e, hk, hd, hky, he, hb⟩ := hs.block_points (OrdMap.get_eq_some.mpr hx)
  exact ⟨k, b, e, hk, Prod.ext hky hd, hd ▸ he, hb⟩

variable {clock : Nat → Int64} {k : StorageKey} {n : Nat} {t : Option QueryCursor} {B : Base64}
  {p : Page Item QueryCursor}

theorem ofNamespace_blockIndexKey (hk : ColonFree k.ns) (b : UInt64) :
    ofNamespace ns (blockIndexKey C k.ns b k) = true ↔ k.ns = ns := by
  rw [ofNamespace, decide_eq_true_eq, blockIndexKey, takeWhile_ns hk]
  exact ⟨utf8_inj, congrArg utf8⟩

theorem blockScanFrom_suffix (t : Option QueryCursor) :
    blockScanFrom s ns t <:+ blockMatching s ns := by
  rw [blockScanFrom_eq]
  exact OrdMap.filter_le_suffix _ (sorted_blockMatching s ns)

/-! ## pages -/

def blockItemOf (s : LocalStorage) (x : Bytes × Bytes) : BlockItem :=
  ((itemOf s x).1, (itemOf s x).2, ((parseBlockIndexKey x.1).map Prod.snd).getD 0)

/-- the cursor of a page that ends with the entry `x` -/
def cursorAt (C : Crypto) (s : LocalStorage) (ns : String) (x : Bytes × Bytes) : QueryCursor :=
  .fromLastItem C ns (blockItemOf s x).2.2 (blockItemOf s x).1

def cursorOf (C : Crypto) (s : LocalStorage) (ns : String) (limit : Nat)
    (r : List (Bytes × Bytes)) : Option QueryCursor :=
  if limit < r.length then ((r.take limit).getLast?).map (cursorAt C s ns) else none

def blockPage (C : Crypto) (s : LocalStorage) (ns : String) (limit : Nat) (_ : Nat)
    (t : Option QueryCursor) : StorageResult (Page (Bytes × Bytes) QueryCursor) :=
  .ok ⟨(blockScanFrom s ns t).take limit, decide (limit < (blockScanFrom s ns t).length),
    cursorOf C s ns limit (blockScanFrom s ns t)⟩

theorem serves_blockPage (hl : 0 < limit) :
    Serves (blockPage C s ns limit) limit (blockScanFrom s ns) (fun r => decide (limit < r.length))
      (cursorOf C s ns limit) where
  limit_pos := hl
  page_eq := fun _ _ => rfl
  rest_of_more := fun _ h => (of_decide_eq_true h).le
  all_of_not_more := fun _ h => not_lt.mp (of_decide_eq_false h)
  more_mono := fun _ _ hle h => decide_eq_true (lt_of_lt_of_le (of_decide_eq_true h) hle)

variable {b' : UInt64} {c : QueryCursor} {e : LocalEntry} {items : List Item}
  {r : List (Bytes × Bytes)}

theorem blockItemOf_eq (hk : Legible k) (he : s.data.get k.toBytes = some e) :
    blockItemOf s (blockIndexKey C k.ns b k, k.toBytes) = (k, e.value, b) := by
  have him : itemOf s (blockIndexKey C k.ns b k, k.toBytes) = (k, e.value) := itemOf_placeOf hk he
  rw [blockItemOf, him, parseBlockIndexKey_key hk.colonFree]
  rfl

/-- An entry is passed over if it is expired, does not match, or has a key that is not text. -/
theorem blockItemAt_blockIndexKey (hns : ColonFree k.ns) (he : s.data.get k.toBytes = some e)
    (hb : e.blockId = some b) (now : Int64) (filter : Option QueryFilter) :
    blockItemAt now s filter (blockIndexKey C k.ns b k, k.toBytes) =
      if (fromUtf8 k.key).isSome = true ∧ e.value.metadata.isExpired now = false ∧
        filter.all (fun f => f.matches (some b) e.value.metadata.createdAt k.key) = true then
        some (k, e.value, b) else none := by
  have hpr := parseKey_of_colonFree hns
  have hbl := parseBlockIndexKey_key (C := C) hns b k
  by_cases htx : (fromUtf8 k.key).isSome = true
  · rw [if_pos htx] at hpr
    rw [blockItemAt_eq hbl he hpr]
    cases filter with
    | none => simp [htx, passes]
    | some f => simp [htx, passes, hpr, hb]
  · rw [if_neg htx] at hpr
    rw [if_neg fun h => htx h.1, blockItemAt, hbl, he, hpr]
    rfl

def EndsInMax (C : Crypto) (k : StorageKey) : Prop := (k.hash C).bytes.getLast? = some 255

instance (C : Crypto) (k : StorageKey) : Decidable (EndsInMax C k) :=
  inferInstanceAs (Decidable (_ = _))

theorem blockIndexKey_split (C : Crypto) (ns : String) (b : UInt64) (k : StorageKey) :
    ∃ u c, blockIndexKey C ns b k = u ++ [c] ∧ (EndsInMax C k ↔ c = 255) := by
  rcases eq_nil_or_concat (k.hash C).bytes with h | ⟨u, c, h⟩
  · have hl := (k.hash C).len
    rw [h] at hl
    cases hl
  · rw [concat_eq_append] at h
    refine ⟨nsPrefix ns ++ (beBytes b ++ colon :: u), c, ?_, ?_⟩
    · rw [blockIndexKey_eq, h]
      simp
    · rw [EndsInMax, h, getLast?_append]
      simp

theorem raiseLast_max (u : Bytes) : raiseLast (u ++ [255]) = u ++ [255] := by simp [raiseLast]

theorem le_raiseLast_append (u : Bytes) (c : UInt8) : u ++ [c] ≤ raiseLast (u ++ [c]) := by
  by_cases hc : c = 255
  · rw [hc, raiseLast_max]
  · exact (lt_raiseLast_append u hc).le

theorem raised_blockIndexKey_le (k k' : StorageKey) (b b' : UInt64)
    (hlt : blockIndexKey C ns b k < blockIndexKey C ns b' k') :
    raiseLast (blockIndexKey C ns b k) ≤ blockIndexKey C ns b' k' := by
  obtain ⟨u, c, hk, -⟩ := blockIndexKey_split C ns b k
  by_cases hc : c = 255
  · have hs : raiseLast (blockIndexKey C ns b k) = blockIndexKey C ns b k := by
      rw [hk, hc]
      exact raiseLast_max _
    rw [hs]
    exact hlt.le
  · rw [hk] at hlt ⊢
    rw [raiseLast_append hc, raised_le_iff (covBy_raise c hc) hlt, ← hk]
    -- the keys of a namespace are all of one length
    intro hpr
    have hl : (blockIndexKey C ns b k).length = (blockIndexKey C ns b' k').length := by
      rw [blockIndexKey_eq, blockIndexKey_eq]
      simp [(k.hash C).len, (k'.hash C).len]
    rw [← hk, hpr.eq_of_length hl] at hlt
    exact lt_irrefl _ hlt

theorem raiseLast_blockIndexKey (k : StorageKey) (b : UInt64) :
    raiseLast (blockIndexKey C ns b k) ≤ blockIndexKey C ns b k ↔ EndsInMax C k := by
  obtain ⟨u, c, hk, hm⟩ := blockIndexKey_split C ns b k
  rw [hm, hk]
  by_cases hc : c = 255
  · refine iff_of_true (le_of_eq ?_) hc
    rw [hc]
    exact raiseLast_max _
  · exact iff_of_false (not_le.mpr (lt_raiseLast_append u hc)) hc

/-! ## complete visits -/

/-- every entry of the namespace that has a block, exactly once -/
structure CompleteVisit (s : LocalStorage) (ns : String) (items : List Item) : Prop where
  nodup : (items.map Prod.fst).Nodup
  mem_iff : ∀ k v, (k, v) ∈ items ↔
    ∃ e, Asked s ns none k e ∧ e.blockId ≠ none ∧ e.value = v

def blockKeys (s : LocalStorage) (ns : String) : List StorageKey :=
  (blockMatching s ns).filterMap fun x => parseKey x.2

def blockPlaceOf (C : Crypto) (s : LocalStorage) (k : StorageKey) : Bytes × Bytes :=
  (blockIndexKey C k.ns ((s.blockOf k).getD 0) k, k.toBytes)

theorem blockPlaceOf_eq (he : s.data.get k.toBytes = some e) (hb : e.blockId = some b) :
    blockPlaceOf C s k = (blockIndexKey C k.ns b k, k.toBytes) := by
  rw [blockPlaceOf, LocalStorage.blockOf, he, Option.bind_some, hb]
  rfl

def CleanHashes (C : Crypto) (limit : Nat) (keys : List StorageKey) : Prop :=
  ∀ j a, keys[j * limit + (limit - 1)]? = some a → j * limit + limit < keys.length →
    ¬ EndsInMax C a

/-! ## the calls -/

def QueryResult.page (r : QueryResult) : Page Item QueryCursor := ⟨r.items, r.hasMore, r.nextCursor⟩

def queryPage (C : Crypto) (s : LocalStorage) (ns : String) (limit : Nat) (clock : Nat → Int64)
    (n : Nat) (t : Option QueryCursor) : StorageResult (Page Item QueryCursor) :=
  (s.query C (clock n) (pagedQuery ns limit t)).map QueryResult.page

/-! ## cursors as text -/

def viaText (B : Base64) (page : Nat → Option QueryCursor → StorageResult (Page Item QueryCursor))
    (n : Nat) (t : Option QueryCursor) : Except (Option StorageError) (Page Item QueryCursor) :=
  match page n t with
  | .error err => .error (some err)
  | .ok p =>
    match p.token with
    | none => .ok p
    | some c =>
      match QueryCursor.fromBase64 B (c.toBase64 B) with
      | none => .error none
      | some c' => .ok ⟨p.items, p.hasMore, some c'⟩

theorem length_cursor (k : StorageKey) (b : UInt64) :
    (QueryCursor.fromLastItem C ns b k).toBytes.length = 58 + (utf8 ns).length := by
  show ((option u64).ser (some b) ++ ((option bytes).ser
    (some (k.hash C).bytes) ++ string.ser ns)).length = _
  rw [length_append, length_append, length_ser_string]
  have hh : ((option bytes).ser (some (k.hash C).bytes)).length = 41 := by
    simp [option, bytes, (k.hash C).len]
  have hbl : ((option u64).ser (some b)).length = 9 := by simp [option, u64, uint]
  rw [hh, hbl]
  omega

theorem fromBase64_toBase64 (hB : B.Lawful) (hl : c.toBytes.length < 2 ^ 64) :
    QueryCursor.fromBase64 B (c.toBase64 B) = some c := by
  have hr : Layout.queryCursor.deserialize c.toBytes = .ok c :=
    Layout.lawful_queryCursor.deserialize hl
  rw [QueryCursor.fromBase64, QueryCursor.toBase64, hB, Option.bind_some, QueryCursor.fromBytes, hr]

theorem token_eq_fromLastItem (h : queryPage C s ns limit clock n t = .ok p)
    (hc : p.token = some c) : ∃ b k, c = .fromLastItem C ns b k := by
  unfold queryPage LocalStorage.query at h
  generalize s.queryBlockIndexRange _ _ _ _ _ _ = rs at h
  cases h
  change (if limit < rs.length then ((rs.take limit).getLast?).map
    (fun r => QueryCursor.fromLastItem C ns r.2.2 r.1) else none) = some c at hc
  split at hc
  · obtain ⟨r, -, rfl⟩ := Option.map_eq_some_iff.mp hc
    exact ⟨r.2.2, r.1, rfl⟩
  · cases hc

theorem viaText_of_ok (hB : B.Lawful) (hns : (utf8 ns).length < 2 ^ 63)
    (hp : queryPage C s ns limit clock n t = .ok p) :
    viaText B (queryPage C s ns limit clock) n t = .ok p := by
  obtain ⟨items, more, tok⟩ := p
  unfold viaText
  rw [hp]
  cases tok with
  | none => rfl
  | some c =>
    obtain ⟨b, k, rfl⟩ := token_eq_fromLastItem hp rfl
    simp only
    rw [fromBase64_toBase64 hB (by rw [length_cursor]; omega)]

/-! ## the index of a coherent storage -/

section
variable (hs : Coherent C K s) (hK : AllColonFree K)
include hs hK

theorem Coherent.of_mem_blockMatching (hx : x ∈ blockMatching s ns) :
    ∃ k b e, K k ∧ k.ns = ns ∧
      x = (blockIndexKey C ns b k, k.toBytes) ∧ s.data.get k.toBytes = some e ∧
      e.blockId = some b := by
  obtain ⟨hm, hns⟩ := mem_filter.mp hx
  obtain ⟨k, b, e, hk, rfl, he, hb⟩ := hs.block_entry hm
  obtain rfl := (ofNamespace_blockIndexKey (hK k hk) b).mp hns
  exact ⟨k, b, e, hk, rfl, rfl, he, hb⟩

theorem Coherent.mem_blockMatching (hk : K k) (he : s.data.get k.toBytes = some e)
    (hb : e.blockId = some b) : (blockIndexKey C k.ns b k, k.toBytes) ∈ blockMatching s k.ns := by
  refine mem_filter.mpr ⟨OrdMap.get_eq_some.mp ?_, (ofNamespace_blockIndexKey (hK k hk) b).mpr rfl⟩
  show s.blockIndex.get (blockIndexKey C k.ns b k) = some k.toBytes
  rw [hs.block_get k b hk, if_pos]
  rw [LocalStorage.blockOf, he]
  exact hb

theorem queryBlockIndexRange_eq (now : Int64) (ns : String) (start : Bytes)
    (stop : Option Bytes) (limit : Nat) (filter : Option QueryFilter) :
    s.queryBlockIndexRange now ns start stop (limit + 1) filter =
      (((blockRange s start stop).takeWhile fun x =>
        ofNamespace ns x.1).filterMap (blockItemAt now s filter)).take (limit + 1) := by
  have hpr : ∀ x ∈ blockRange s start stop, ∃ ns' b, parseBlockIndexKey x.1 = some (ns', b) ∧
      (ofNamespace ns x.1 = true ↔ ns' = ns) := by
    intro x hx
    obtain ⟨k, b, e, hk, rfl, -, -⟩ := hs.block_entry (mem_filter.mp (mem_filter.mp hx).1).1
    exact ⟨k.ns, b, parseBlockIndexKey_key (hK k hk) b k, ofNamespace_blockIndexKey (hK k hk) b⟩
  exact queryScan_spec _ hpr [] (Nat.succ_pos limit)

end

section
variable (hs : Coherent C K s) (hK : ∀ k, K k → Legible k)
include hs hK

theorem blockScanFrom_none : blockScanFrom s ns none = blockMatching s ns := by
  rw [blockScanFrom_eq, filter_eq_self]
  intro x hx
  obtain ⟨k, b, e, -, -, rfl, -, -⟩ := hs.of_mem_blockMatching (allColonFree_of_legible hK) hx
  apply decide_eq_true
  exact blockRangeStart_le (UInt64.le_iff_toNat_le.mpr (Nat.zero_le _)) k

theorem filter_raised {pre rest : List (Bytes × Bytes)}
    (hx : x.1 = blockIndexKey C ns b k) (ha : blockMatching s ns = pre ++ x :: rest) :
    (blockMatching s ns).filter (fun y => decide (raiseLast (blockIndexKey C ns b k) ≤ y.1)) =
      if EndsInMax C k then x :: rest else rest := by
  have hsr := sorted_blockMatching s ns
  rw [ha] at hsr
  have hge : x.1 ≤ raiseLast (blockIndexKey C ns b k) := by
    obtain ⟨u, c, hk, -⟩ := blockIndexKey_split C ns b k
    rw [hx, hk]
    exact le_raiseLast_append u c
  have hr : rest.filter (fun y => decide (raiseLast (blockIndexKey C ns b k) ≤ y.1)) = rest := by
    rw [filter_eq_self]
    intro y hy
    have hlt : x.1 < y.1 := (pairwise_cons.mp (pairwise_append.mp hsr).2.1).1 y hy
    have hmm : y ∈ blockMatching s ns := by
      rw [ha]
      exact mem_append_right _ (mem_cons_of_mem x hy)
    obtain ⟨k', b', e', -, -, rfl, -, -⟩ := hs.of_mem_blockMatching (allColonFree_of_legible hK) hmm
    rw [hx] at hlt
    exact decide_eq_true (raised_blockIndexKey_le k k' b b' hlt)
  rw [ha, OrdMap.filter_le_append_cons hge hsr]
  by_cases hm : EndsInMax C k
  · rw [if_pos hm, filter_cons_of_pos, hr]
    rw [decide_eq_true_eq, hx]
    exact (raiseLast_blockIndexKey k b).mpr hm
  · rw [if_neg hm, filter_cons_of_neg, hr]
    rw [decide_eq_true_eq, hx]
    exact fun h => hm ((raiseLast_blockIndexKey k b).mp h)

theorem next_blockPage (hlm : 0 < limit)
    (hr : r <:+ blockMatching s ns) (hl : limit < r.length) :
    ∃ k x, r[limit - 1]? = some x ∧ x.2 = k.toBytes ∧ Legible k ∧
      blockScanFrom s ns (cursorOf C s ns limit r) =
        if EndsInMax C k then x :: r.drop limit else r.drop limit := by
  obtain ⟨init, x, htk, hsp, hls⟩ := exists_last_of_page hlm hl.le
  have hxm : x ∈ blockMatching s ns := by
    refine hr.subset ?_
    rw [hsp]
    exact mem_append_right _ mem_cons_self
  obtain ⟨k, b, e, hk, rfl, hx, he, hb⟩ := hs.of_mem_blockMatching (allColonFree_of_legible hK) hxm
  have hcr : cursorOf C s k.ns limit r = some (.fromLastItem C k.ns b k) := by
    rw [cursorOf, if_pos hl, htk, getLast?_append]
    show some (cursorAt C s k.ns x) = _
    rw [cursorAt, hx, blockItemOf_eq (hK k hk) he]
  have hsr : (pagedQuery k.ns 0 (some (.fromLastItem C k.ns b k))).effectiveStart =
      raiseLast (blockIndexKey C k.ns b k) := rfl
  obtain ⟨pre, hbf⟩ := hr
  have ha : blockMatching s k.ns = (pre ++ init) ++ x :: r.drop limit := by
    conv_lhs => rw [← hbf, hsp]
    rw [append_assoc]
  refine ⟨k, x, hls, congrArg Prod.snd hx, hK k hk, ?_⟩
  rw [hcr, blockScanFrom_eq, hsr]
  exact filter_raised hs hK (congrArg Prod.fst hx) ha

theorem next_blockPage_suffix (hlm : 0 < limit) (hr : r <:+ blockMatching s ns)
    (hl : limit < r.length) : r.drop limit <:+ blockScanFrom s ns (cursorOf C s ns limit r) := by
  obtain ⟨k, x, -, -, -, hnx⟩ := next_blockPage hs hK hlm hr hl
  rw [hnx]
  split
  · exact suffix_cons x _
  · exact ⟨[], rfl⟩

theorem blockMatching_eq_map : blockMatching s ns = (blockKeys s ns).map (blockPlaceOf C s) := by
  apply eq_map_of_parse
  intro x hx
  obtain ⟨k, b, e, hk, rfl, rfl, he, hb⟩ := hs.of_mem_blockMatching (allColonFree_of_legible hK) hx
  show (parseKey k.toBytes).map (blockPlaceOf C s) = _
  rw [parseKey_toBytes (hK k hk), Option.map_some, blockPlaceOf_eq he hb]

theorem mem_blockKeys : k ∈ blockKeys s ns ↔ ∃ e, Asked s ns none k e ∧ e.blockId ≠ none := by
  constructor
  · intro hk
    obtain ⟨x, hx, hpr⟩ := mem_filterMap.mp hk
    obtain ⟨k', b, e, hk', rfl, rfl, he, hb⟩ :=
      hs.of_mem_blockMatching (allColonFree_of_legible hK) hx
    change parseKey k'.toBytes = some k at hpr
    rw [parseKey_toBytes (hK k' hk')] at hpr
    cases hpr
    refine ⟨e, ⟨(hK k hk').colonFree, rfl, nil_prefix, he⟩, ?_⟩
    rw [hb]
    exact Option.some_ne_none b
  · rintro ⟨e, ha, hbl⟩
    have hk := ha.key hs.toIndexCoherent (allColonFree_of_legible hK)
    obtain ⟨b, hb⟩ := Option.ne_none_iff_exists'.mp hbl
    have hx := hs.mem_blockMatching (allColonFree_of_legible hK) hk ha.stored hb
    rw [ha.ns_eq] at hx
    exact mem_filterMap.mpr ⟨_, hx, parseKey_toBytes (hK k hk)⟩

theorem nodup_blockKeys : (blockKeys s ns).Nodup := by
  have hsr := sorted_blockMatching s ns
  rw [blockMatching_eq_map hs hK] at hsr
  exact nodup_of_sorted_map hsr

theorem cleanHashes_iff (hlm : 0 < limit) :
    CleanHashes C limit (blockKeys s ns) ↔
      ∀ j, limit < ((blockMatching s ns).drop (j * limit)).length →
        CleanAfter limit (blockScanFrom s ns) (cursorOf C s ns limit)
          ((blockMatching s ns).drop (j * limit)) := by
  have hln : (blockMatching s ns).length = (blockKeys s ns).length := by
    rw [blockMatching_eq_map hs hK, length_map]
  have hky : ∀ j k x, Legible k → x.2 = k.toBytes →
      ((blockMatching s ns).drop (j * limit))[limit - 1]? = some x →
      (blockKeys s ns)[j * limit + (limit - 1)]? = some k := by
    intro j k x hk hx hg
    rw [getElem?_drop, blockMatching_eq_map hs hK, getElem?_map] at hg
    obtain ⟨a, ha, rfl⟩ := Option.map_eq_some_iff.mp hg
    obtain ⟨e, has, -⟩ := (mem_blockKeys hs hK).mp (mem_of_getElem? ha)
    rw [ha, toBytes_inj has.colonFree hk.colonFree hx]
  constructor
  · intro h j hl
    obtain ⟨k, x, hg, hx, hk, hnx⟩ := next_blockPage hs hK hlm (drop_suffix _ _) hl
    rw [length_drop, hln] at hl
    rw [CleanAfter, hnx, if_neg (h j k (hky j k x hk hx hg) (by omega))]
  · intro h j a ha hlt hm
    have hl : limit < ((blockMatching s ns).drop (j * limit)).length := by
      rw [length_drop, hln]
      omega
    obtain ⟨k, x, hg, hx, hk, hnx⟩ := next_blockPage hs hK hlm (drop_suffix _ _) hl
    have hsm := hky j k x hk hx hg
    rw [ha] at hsm
    cases hsm
    have hcl := h j hl
    rw [CleanAfter, hnx, if_pos hm] at hcl
    exact absurd (congrArg length hcl) (by simp)

theorem queryBlockIndexRange_paged (hnw : Unexpired s now) (t : Option QueryCursor) :
    s.queryBlockIndexRange now ns (pagedQuery ns 0 t).effectiveStart none (limit + 1) none =
      ((blockScanFrom s ns t).take (limit + 1)).map (blockItemOf s) := by
  have him : (blockScanFrom s ns t).map (blockItemOf s) =
      (blockScanFrom s ns t).filterMap (blockItemAt now s none) := by
    rw [← filterMap_eq_map]
    refine filterMap_congr fun x hx => ?_
    obtain ⟨k, b, e, hk, rfl, rfl, he, hb⟩ :=
      hs.of_mem_blockMatching (allColonFree_of_legible hK) ((blockScanFrom_suffix t).subset hx)
    rw [blockItemAt_blockIndexKey (hK k hk).colonFree he hb,
      if_pos ⟨(hK k hk).isSome_fromUtf8, hnw _ e he, rfl⟩]
    exact congrArg some (blockItemOf_eq (hK k hk) he)
  have hrn : blockRange s (pagedQuery ns 0 t).effectiveStart none =
      s.blockIndex.rangeFrom (pagedQuery ns 0 t).effectiveStart :=
    filter_eq_self.mpr fun _ _ => rfl
  rw [map_take, him, blockScanFrom, ← hrn]
  exact queryBlockIndexRange_eq hs (allColonFree_of_legible hK) now ns _ none limit none

theorem queryPage_eq (hcl : ∀ n, Unexpired s (clock n)) (n : Nat)
    (t : Option QueryCursor) : queryPage C s ns limit clock n t =
      (blockPage C s ns limit n t).map (Page.map (itemOf s)) := by
  have hrn : s.queryBlockIndexRange (clock n) (pagedQuery ns limit t).ns
      (pagedQuery ns limit t).effectiveStart (pagedQuery ns limit t).scanRange.2
      ((pagedQuery ns limit t).limit + 1) (pagedQuery ns limit t).buildFilter =
        ((blockScanFrom s ns t).take (limit + 1)).map (blockItemOf s) :=
    queryBlockIndexRange_paged hs hK (hcl n) t
  rw [queryPage, LocalStorage.query, hrn, blockPage]
  generalize blockScanFrom s ns t = r
  have hm : limit < ((r.take (limit + 1)).map (blockItemOf s)).length ↔ limit < r.length := by
    rw [length_map, length_take]
    omega
  have htk : ((r.take (limit + 1)).map (blockItemOf s)).take limit =
      (r.take limit).map (blockItemOf s) := by
    rw [← map_take, take_take, Nat.min_eq_left (Nat.le_succ limit)]
  have hls : (((r.take limit).map (blockItemOf s)).getLast?).map
      (fun r => QueryCursor.fromLastItem C ns r.2.2 r.1) =
      ((r.take limit).getLast?).map (cursorAt C s ns) := by
    rw [getLast?_map, Option.map_map]
    rfl
  show Except.ok (Page.mk ((((r.take (limit + 1)).map (blockItemOf s)).take limit).map
      fun r => (r.1, r.2.1))
    (decide (limit < ((r.take (limit + 1)).map (blockItemOf s)).length))
    (if limit < ((r.take (limit + 1)).map (blockItemOf s)).length then
      ((((r.take (limit + 1)).map (blockItemOf s)).take limit).getLast?).map
        fun r => QueryCursor.fromLastItem C ns r.2.2 r.1
      else none)) = _
  rw [htk, map_map, hls]
  simp only [hm]
  rfl

theorem completeVisit_all : CompleteVisit s ns ((blockMatching s ns).map (itemOf s)) := by
  rw [blockMatching_eq_map hs hK, map_map]
  obtain ⟨hnd, hm⟩ := listed_of_keys (f := itemOf s ∘ blockPlaceOf C s)
    (nodup_blockKeys hs hK) (fun k => mem_blockKeys hs hK) fun k e h =>
    itemOf_placeOf (hK k (h.1.key hs.toIndexCoherent (allColonFree_of_legible hK))) h.1.stored
  simp only [and_assoc] at hm
  exact ⟨hnd, hm⟩

theorem CompleteVisit.length_eq (h : CompleteVisit s ns items) :
    items.length = (blockMatching s ns).length := by
  have hm := h.mem_iff
  simp only [← and_assoc] at hm
  rw [blockMatching_eq_map hs hK, length_map]
  exact length_of_listed (nodup_blockKeys hs hK) (fun k => mem_blockKeys hs hK) h.nodup hm

theorem visit_iff (hlm : 0 < limit) (hcl : ∀ n, Unexpired s (clock n)) :
    (∃ items, Pages (queryPage C s ns limit clock) 0 none items ∧ CompleteVisit s ns items) ↔
      CleanHashes C limit (blockKeys s ns) := by
  have hsr : Serves (blockPage C s ns limit) limit (blockScanFrom s ns) _ _ :=
    serves_blockPage hlm
  have hrp : ∀ t, decide (limit < (blockScanFrom s ns t).length) = true → _ := fun t h =>
    next_blockPage_suffix hs hK hlm (blockScanFrom_suffix t) (of_decide_eq_true h)
  constructor
  · rintro ⟨items, hpg, hcm⟩
    refine (cleanHashes_iff hs hK hlm).mpr fun j hj => ?_
    obtain ⟨l, hl, rfl⟩ := (pages_map_iff (queryPage_eq hs hK hcl)).mp hpg
    have hln := hcm.length_eq hs hK
    rw [length_map, ← blockScanFrom_none hs hK] at hln
    have hcn := clean_of_repeating hsr hrp hl hln j
    rw [blockScanFrom_none hs hK] at hcn
    exact hcn (decide_eq_true hj)
  · intro hh
    have hal : Pages (blockPage C s ns limit) 0 none (blockScanFrom s ns none) := by
      refine pages_complete hsr fun j hj => ?_
      rw [blockScanFrom_none hs hK] at hj ⊢
      exact (cleanHashes_iff hs hK hlm).mp hh j (of_decide_eq_true hj)
    rw [blockScanFrom_none hs hK] at hal
    exact ⟨_, (pages_map_iff (queryPage_eq hs hK hcl)).mpr ⟨_, hal, rfl⟩, completeVisit_all hs hK⟩

end

/-- Following the cursors to the end, as they are and through text, visits every entry of the
namespace that has a block exactly once if and only if no page but the last ends with a key whose
hash ends in the largest byte. -/
theorem query_complete_iff (hs : Coherent C K s) (hK : ∀ k, K k → Legible k) {B : Base64}
    (hB : B.Lawful) (ns : String) (hns : (utf8 ns).length < 2 ^ 63) {limit : Nat}
    (hlimit : 0 < limit) (clock : Nat → Int64) (hclock : ∀ n, Unexpired s (clock n)) :
    ((∃ items, Pages (queryPage C s ns limit clock) 0 none items ∧ CompleteVisit s ns items) ∧
      ∃ items, Pages (viaText B (queryPage C s ns limit clock)) 0 none items ∧
        CompleteVisit s ns items) ↔ CleanHashes C limit (blockKeys s ns) := by
  rw [← visit_iff hs hK hlimit hclock]
  refine ⟨And.left, fun h => ⟨h, ?_⟩⟩
  obtain ⟨items, hpg, hcm⟩ := h
  exact ⟨items, hpg.mono fun n t p => viaText_of_ok hB hns, hcm⟩

end

/-! ## two small storages -/

/-- SHA-256 of `n:k98`, which ends in the largest byte -/
def digestK98 : Bytes32 where
  bytes := [13, 148, 223, 227, 23, 213, 128, 252, 118, 93, 197, 5, 111, 54, 89, 150, 101, 121, 225,
    163, 108, 19, 217, 212, 138, 115, 119, 234, 239, 105, 149, 255]
  len := by decide

/-- SHA-256 of `n:z` -/
def digestZ : Bytes32 where
  bytes := [197, 173, 165, 115, 181, 213, 121, 226, 229, 180, 113, 76, 0, 155, 193, 137, 19, 55, 65,
    146, 169, 121, 247, 100, 192, 55, 212, 160, 26, 72, 169, 241]
  len := by decide

def tableHash (d : Bytes) : Bytes32 :=
  if d = utf8 ("n:k98") then digestK98
  else if d = utf8 ("n:z") then digestZ
  else sampleCrypto.sha256 d

def tableCrypto : Crypto := { sampleCrypto with sha256 := tableHash }

def blockStorage (blockK98 blockZ : UInt64) :=
  trace (localNext tableCrypto) (.inMemory "node")
    [(0, .putWithBlock ⟨"n", utf8 "k98"⟩ [1] blockK98 .default),
      (0, .putWithBlock ⟨"n", utf8 "z"⟩ [2] blockZ .default)]

theorem keysOf_blockStorage
    (h : keysOf (blockStorage b b').1 k) : k = ⟨"n", utf8 "k98"⟩ ∨ k = ⟨"n", utf8 "z"⟩ := by
  obtain ⟨c, hc, rfl⟩ := h
  rcases mem_cons.mp hc with rfl | hc
  · exact .inl rfl
  · rw [mem_singleton.mp hc]
    exact .inr rfl

theorem legible_blockStorage (k : StorageKey) (h : keysOf (blockStorage b b').1 k) : Legible k := by
  rcases keysOf_blockStorage h with rfl | rfl
  · exact legible_of_utf8 (by decide)
  · exact legible_of_utf8 (by decide)

theorem coherent_blockStorage (b b' : UInt64) :
    Coherent tableCrypto (keysOf (blockStorage b b').1) (blockStorage b b').2 := by
  refine coherent_of_run ⟨fun k hk => (legible_blockStorage k hk).colonFree, ?_⟩
    (machineRun_trace _ _ _)
  have hne : StorageKey.hash tableCrypto ⟨"n", utf8 "k98"⟩ ≠
      StorageKey.hash tableCrypto ⟨"n", utf8 "z"⟩ := by decide +kernel
  intro k k' hk hk' h
  rcases keysOf_blockStorage hk with rfl | rfl <;> rcases keysOf_blockStorage hk' with rfl | rfl
  · rfl
  · exact absurd h hne
  · exact absurd h.symm hne
  · rfl

/-- bytes as the characters of the same numbers -/
def plainText : Base64 where
  encode := fun bs => String.ofList (bs.map fun b => Char.ofNat b.toNat)
  decode := fun text => some (text.toList.map fun c => UInt8.ofNat c.toNat)

theorem lawful_plainText : plainText.Lawful := by
  intro bs
  have hnt : ∀ n < 256, (Char.ofNat n).toNat = n := by decide +kernel
  have hch : ∀ b : UInt8, UInt8.ofNat (Char.ofNat b.toNat).toNat = b := by
    intro b
    rw [hnt b.toNat b.toNat_lt, UInt8.ofNat_toNat]
  show some ((String.ofList _).toList.map _) = some bs
  rw [String.toList_ofList, map_map]
  congr 1
  conv_rhs => rw [← map_id bs]
  exact map_congr_left fun b _ => hch b

/-- With `z` first, its page ends with another byte. -/
theorem query_complete_two :
    (∃ items, Pages (queryPage tableCrypto (blockStorage 6 5).2 "n" 1 fun _ => 0) 0 none items ∧
      CompleteVisit (blockStorage 6 5).2 "n" items) ∧
    ∃ items, Pages (viaText plainText
        (queryPage tableCrypto (blockStorage 6 5).2 "n" 1 fun _ => 0)) 0 none items ∧
      CompleteVisit (blockStorage 6 5).2 "n" items := by
  refine (query_complete_iff (coherent_blockStorage 6 5) legible_blockStorage lawful_plainText "n"
    (by decide +kernel) Nat.one_pos (fun _ => 0) fun _ => forall_entries (by decide +kernel)).mpr ?_
  have hk : blockKeys (blockStorage 6 5).2 "n" = [⟨"n", utf8 "z"⟩, ⟨"n", utf8 "k98"⟩] := by
    decide +kernel
  intro j a ha hlt
  rw [hk] at ha hlt
  cases j with
  | zero =>
    cases ha
    decide +kernel
  | succ j =>
    simp only [length_cons, length_nil] at hlt
    omega

/-- With `k98` first and one item to a page, the listing never gets past it. -/
theorem query_repeats :
    ¬ ∀ (C : Crypto) (K : StorageKey → Prop) (s : LocalStorage) (ns : String) (limit : Nat)
      (clock : Nat → Int64), Coherent C K s → (∀ k, K k → Legible k) → 0 < limit →
      (∀ n, Unexpired s (clock n)) →
      ∃ items, Pages (queryPage C s ns limit clock) 0 none items ∧ CompleteVisit s ns items := by
  intro h
  obtain ⟨items, hpg, -⟩ := h tableCrypto _ (blockStorage 5 6).2 "n" 1 (fun _ => 0)
    (coherent_blockStorage 5 6) legible_blockStorage Nat.one_pos
    fun _ => forall_entries (by decide +kernel)
  have hfr : queryPage tableCrypto (blockStorage 5 6).2 "n" 1 (fun _ => 0) 0 none =
      .ok ⟨[itemOf (blockStorage 5 6).2 (placeOf ⟨"n", utf8 "k98"⟩)], true,
        some (.fromLastItem tableCrypto "n" 5 ⟨"n", utf8 "k98"⟩)⟩ := by decide +kernel
  have hlp : ∀ n, queryPage tableCrypto (blockStorage 5 6).2 "n" 1 (fun _ => 0) n
      (some (.fromLastItem tableCrypto "n" 5 ⟨"n", utf8 "k98"⟩)) =
      .ok ⟨[itemOf (blockStorage 5 6).2 (placeOf ⟨"n", utf8 "k98"⟩)], true,
        some (.fromLastItem tableCrypto "n" 5 ⟨"n", utf8 "k98"⟩)⟩ := by
    intro n
    show queryPage tableCrypto (blockStorage 5 6).2 "n" 1 (fun _ => 0) 0 _ = _
    decide +kernel
  cases hpg with
  | last hp hno =>
    rw [hfr] at hp
    cases hp
    cases hno
  | more hp _ hr =>
    rw [hfr] at hp
    cases hp
    exact not_pages_of_loop hlp rfl rfl hr

end Platform.Storage
