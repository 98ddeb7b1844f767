import Mathlib.Data.List.TakeWhile
import Platform.Lib.Paging
import Platform.Storage.Coherence

/-!
# Listing by prefix (`list_prefix` of `local.rs`)

The index is scanned from the continuation token on, the token being the last index key of the page
before with its last byte raised.
-/

namespace Platform.Storage
open Platform.Core Lib Chain List
open scoped Lib.Bytewise

/-- `from_utf8`, then `split_once(':')` -/
def parseKey (d : Bytes) : Option StorageKey :=
  match fromUtf8 d with
  | none => none
  | some str =>
    match str.toList.dropWhile (· ≠ ':') with
    | [] => none
    | _ :: rest =>
      some ⟨String.ofList (str.toList.takeWhile (· ≠ ':')), utf8 (String.ofList rest)⟩

/-- the scan prefix of `list_prefix` -/
def scanPrefix (ns : String) : Option Bytes → Bytes
  | some p => utf8 (ns ++ ":" ++ hexEncode p)
  | none => utf8 (ns ++ ":")

def raiseLast (k : Bytes) : Bytes :=
  match k.getLast? with
  | none => k
  | some b => k.dropLast ++ [if b = 255 then 255 else b + 1]

abbrev Item := StorageKey × StoredValue

/-- the loop of `list_prefix`: the items pushed so far and the last index key -/
def listScan (now : Int64) (s : LocalStorage) (pre : Bytes) (limit : Nat) :
    List (Bytes × Bytes) → List Item → Option Bytes → List Item × Option Bytes
  | [], items, lastKey => (items, lastKey)
  | (indexKey, dataKey) :: rest, items, lastKey =>
    if pre.isPrefixOf indexKey = false then (items, lastKey)
    else
      match s.data.get dataKey with
      | none => listScan now s pre limit rest items lastKey
      | some e =>
        if e.value.metadata.isExpired now then listScan now s pre limit rest items lastKey
        else
          match parseKey dataKey with
          | none => listScan now s pre limit rest items lastKey
          | some k =>
            if limit ≤ (items ++ [(k, e.value)]).length then
              (items ++ [(k, e.value)], some indexKey)
            else listScan now s pre limit rest (items ++ [(k, e.value)]) (some indexKey)

def LocalStorage.listPrefix (now : Int64) (s : LocalStorage) (ns : String) (pre : Option Bytes)
    (limit : Nat) (token : Option Bytes) : StorageResult (Page Item Bytes) :=
  let (items, lastKey) := listScan now s (scanPrefix ns pre) limit
    (s.index.rangeFrom (token.getD (scanPrefix ns pre))) [] none
  .ok ⟨items, decide (limit ≤ items.length),
    if limit ≤ items.length then lastKey.map raiseLast else none⟩

/-! ## keys that are read back -/

/-- A byte below 128 stands for itself. -/
theorem toNat_of_mem_encodeChar {b : UInt8} {c : Char} (h : b ∈ String.utf8EncodeChar c)
    (hb : b.toNat < 128) : b.toNat = c.val.toNat := by
  have hlt : c.val.toNat < 2 ^ 32 := c.val.toNat_lt
  unfold String.utf8EncodeChar at h
  dsimp only at h
  split_ifs at h <;>
    simp only [mem_cons, not_mem_nil, or_false, ← UInt8.toNat_inj, UInt8.toNat_ofNat'] at h <;>
    omega

theorem colon_mem_utf8 {str : String} : colon ∈ utf8 str ↔ ':' ∈ str.toList := by
  have hsr : utf8 str = str.toList.flatMap String.utf8EncodeChar := by
    rw [← utf8_ofList, String.ofList_toList]
  rw [hsr, mem_flatMap]
  constructor
  · rintro ⟨c, hc, hb⟩
    have hv : (':' : Char).val.toNat = c.val.toNat := toNat_of_mem_encodeChar hb (by decide)
    rwa [Char.ext (UInt32.toNat_inj.mp hv)]
  · exact fun h => ⟨':', h, by decide⟩

structure Legible (k : StorageKey) : Prop where
  colonFree : ColonFree k.ns
  utf8_key : ∃ text, utf8 text = k.key

variable {k : StorageKey} {limit : Nat} {now : Int64} {x : Bytes × Bytes} {s : LocalStorage}
  {items : List Item} {pre : Bytes}

theorem parseKey_toBytes (hk : Legible k) : parseKey k.toBytes = some k := by
  obtain ⟨ns, key⟩ := k
  obtain ⟨hns, text, rfl⟩ := hk
  have hby : StorageKey.toBytes ⟨ns, utf8 text⟩ = utf8 (ns ++ ":" ++ text) :=
    (utf8_colon ns text).symm
  have hch : (ns ++ ":" ++ text).toList = ns.toList ++ ':' :: text.toList := by
    rw [String.toList_append, String.toList_append, append_assoc]
    rfl
  have hfr : ∀ c ∈ ns.toList, decide (c ≠ ':') = true := fun c hc =>
    decide_eq_true fun h => hns (colon_mem_utf8.mpr (h ▸ hc))
  rw [parseKey, hby, fromUtf8_utf8]
  show (match (ns ++ ":" ++ text).toList.dropWhile _ with
    | [] => none
    | _ :: rest => some (StorageKey.mk (String.ofList ((ns ++ ":" ++ text).toList.takeWhile _))
        (utf8 (String.ofList rest)))) = _
  rw [hch, dropWhile_append_of_pos hfr, takeWhile_append_of_pos hfr]
  simp

theorem parseKey_eq_some {d : Bytes} : parseKey d = some k ↔ Legible k ∧ d = k.toBytes := by
  refine ⟨fun h => ?_, fun ⟨hk, hd⟩ => hd ▸ parseKey_toBytes hk⟩
  unfold parseKey at h
  cases hsr : fromUtf8 d with
  | none =>
    rw [hsr] at h
    cases h
  | some str =>
    rw [hsr] at h
    simp only at h
    split at h
    · cases h
    · next c rest hdr =>
      cases h
      have hfr : ColonFree (String.ofList (str.toList.takeWhile (· ≠ ':'))) := by
        rw [ColonFree, colon_mem_utf8, String.toList_ofList]
        intro hm
        have hne := mem_takeWhile_imp hm
        simp at hne
      refine ⟨⟨hfr, _, rfl⟩, ?_⟩
      have hc : c = ':' := by
        have hh := head?_dropWhile_not (fun c : Char => decide (c ≠ ':')) str.toList
        rw [hdr] at hh
        simpa using hh
      have hch : str.toList = str.toList.takeWhile (· ≠ ':') ++ ':' :: rest := by
        conv_lhs => rw [← takeWhile_append_dropWhile (p := (· ≠ ':')) (l := str.toList)]
        rw [hdr, hc]
      have hsp : str = String.ofList (str.toList.takeWhile (· ≠ ':')) ++ ":" ++
          String.ofList rest := by
        apply String.toList_injective
        rw [String.toList_append, String.toList_append, String.toList_ofList,
          String.toList_ofList, String.toList_ofList, append_assoc]
        exact hch
      rw [← fromUtf8_eq_some.mp hsr]
      conv_lhs => rw [hsp]
      exact utf8_colon _ _

/-- What comes of the bytes of a key: the key, if it is text. -/
theorem parseKey_of_colonFree (hns : ColonFree k.ns) :
    parseKey k.toBytes = if (fromUtf8 k.key).isSome = true then some k else none := by
  split
  · next htx =>
    obtain ⟨text, htx⟩ := Option.isSome_iff_exists.mp htx
    exact parseKey_toBytes ⟨hns, text, fromUtf8_eq_some.mp htx⟩
  · next htx =>
    refine Option.eq_none_iff_forall_ne_some.mpr fun k' hpr => htx ?_
    obtain ⟨⟨hns', text, hky⟩, hby⟩ := parseKey_eq_some.mp hpr
    rw [toBytes_inj hns hns' hby, ← hky, fromUtf8_utf8]
    rfl

theorem Legible.isSome_fromUtf8 (hk : Legible k) : (fromUtf8 k.key).isSome = true := by
  obtain ⟨text, htx⟩ := hk.utf8_key
  rw [← htx, fromUtf8_utf8]
  rfl

theorem hexBytes_isPrefix {a b : Bytes} : hexBytes a <+: hexBytes b ↔ a <+: b := by
  induction a generalizing b with
  | nil => exact iff_of_true nil_prefix nil_prefix
  | cons x a ih =>
    cases b with
    | nil => simp [hexBytes]
    | cons y b =>
      have hx := x.toNat_lt
      have hy := y.toNat_lt
      show hexByte (x.toNat / 16) :: hexByte (x.toNat % 16) :: hexBytes a <+:
        hexByte (y.toNat / 16) :: hexByte (y.toNat % 16) :: hexBytes b ↔ _
      rw [cons_prefix_cons, cons_prefix_cons, cons_prefix_cons, ih]
      constructor
      · rintro ⟨hh, hlw, h⟩
        have h1 := hexByte_inj _ (by omega) _ (by omega) hh
        have h2 := hexByte_inj _ (by omega) _ (by omega) hlw
        exact ⟨UInt8.toNat_inj.mp (by omega), h⟩
      · rintro ⟨rfl, h⟩
        exact ⟨rfl, rfl, h⟩

theorem indexKey_isPrefix {k' : StorageKey} (h : k.ns = k'.ns) :
    k.indexKey <+: k'.indexKey ↔ k.key <+: k'.key := by
  rw [indexKey_eq, indexKey_eq, h, prefix_append_right_inj, cons_prefix_cons, hexBytes_isPrefix]
  exact ⟨fun h => h.2, fun h => ⟨rfl, h⟩⟩

/-! ## the raised key -/

theorem covBy_raise : ∀ b : UInt8, b ≠ 255 → b ⋖ b + 1 := by
  intro b hb
  have hlt := b.toNat_lt
  have hne : b.toNat ≠ 255 := fun h => hb (UInt8.toNat_inj.mp h)
  have ha : (b + 1).toNat = b.toNat + 1 := by
    show (b.toNat + 1) % 256 = _
    omega
  constructor
  · rw [UInt8.lt_iff_toNat_lt]
    omega
  · intro c hbc hcb
    rw [UInt8.lt_iff_toNat_lt] at hbc hcb
    omega

theorem hexByte_ne_max : ∀ n < 16, hexByte n ≠ 255 := by decide

theorem indexKey_last (k : StorageKey) : ∃ u b, k.indexKey = u ++ [b] ∧ b ≠ 255 := by
  rw [indexKey_eq]
  rcases eq_nil_or_concat k.key with hnl | ⟨init, x, hx⟩
  · rw [hnl]
    exact ⟨utf8 k.ns, colon, rfl, by decide⟩
  · refine ⟨utf8 k.ns ++ colon :: (hexBytes init ++ [hexByte (x.toNat / 16)]),
      hexByte (x.toNat % 16), ?_, hexByte_ne_max _ (by omega)⟩
    rw [hx]
    simp [hexBytes]

theorem raiseLast_append {u : Bytes} {b : UInt8} (hb : b ≠ 255) :
    raiseLast (u ++ [b]) = u ++ [b + 1] := by
  simp [raiseLast, hb]

theorem lt_raiseLast_append (u : Bytes) {b : UInt8} (hb : b ≠ 255) :
    u ++ [b] < raiseLast (u ++ [b]) := by
  rw [raiseLast_append hb]
  exact append_left_lt (cons_lt_cons_iff.mpr (.inl (covBy_raise b hb).1))

theorem raiseLast_le_iff (k : StorageKey) {x : Bytes} (hx : k.indexKey < x) :
    raiseLast k.indexKey ≤ x ↔ ¬ k.indexKey <+: x := by
  obtain ⟨u, b, hk, hb⟩ := indexKey_last k
  rw [hk] at hx ⊢
  rw [raiseLast_append hb]
  exact raised_le_iff (covBy_raise b hb) hx

theorem lt_raiseLast (k : StorageKey) : k.indexKey < raiseLast k.indexKey := by
  obtain ⟨u, b, hk, hb⟩ := indexKey_last k
  rw [hk]
  exact lt_raiseLast_append u hb

/-! ## the loop -/

/-- what the loop makes of an index entry -/
def itemAt (now : Int64) (s : LocalStorage) (x : Bytes × Bytes) : Option Item := do
  let e ← s.data.get x.2
  if e.value.metadata.isExpired now = false then
    let k ← parseKey x.2
    some (k, e.value)
  else none

theorem itemAt_eq_some {item : Item}
    (h : itemAt now s x = some item) : ∃ e, s.data.get x.2 = some e ∧
      e.value.metadata.isExpired now = false ∧ parseKey x.2 = some item.1 ∧
        item.2 = e.value := by
  obtain ⟨e, he, h⟩ := Option.bind_eq_some_iff.mp h
  split at h
  · next hex =>
    obtain ⟨k, hk, h⟩ := Option.bind_eq_some_iff.mp h
    cases h
    exact ⟨e, he, hex, hk, rfl⟩
  · cases h

theorem listScan_cons {item : Item} (hpe : pre.isPrefixOf x.1 = true)
    (him : itemAt now s x = some item) (rest : List (Bytes × Bytes)) (items : List Item)
    (lk : Option Bytes) :
    listScan now s pre limit (x :: rest) items lk =
      if limit ≤ (items ++ [item]).length then (items ++ [item], some x.1)
      else listScan now s pre limit rest (items ++ [item]) (some x.1) := by
  obtain ⟨ik, dk⟩ := x
  obtain ⟨k, v⟩ := item
  obtain ⟨e, he, hex, hpr, rfl⟩ := itemAt_eq_some him
  have hpe' : ¬ pre.isPrefixOf ik = false := by
    rw [hpe]
    decide
  have he' : ¬ e.value.metadata.isExpired now = true := by
    rw [hex]
    decide
  rw [listScan, if_neg hpe']
  simp only [he, if_neg he', hpr]

theorem listScan_spec {f : Bytes × Bytes → Item} (r : List (Bytes × Bytes)) (items : List Item)
    (lk : Option Bytes) (hlen : items.length < limit)
    (hf : ∀ x ∈ r.takeWhile (fun x => pre.isPrefixOf x.1), itemAt now s x = some (f x)) :
    listScan now s pre limit r items lk =
      (items ++ ((r.takeWhile fun x => pre.isPrefixOf x.1).take (limit - items.length)).map f,
        ((((r.takeWhile fun x => pre.isPrefixOf x.1).take (limit - items.length)).getLast?).map
          Prod.fst).or lk) := by
  induction r generalizing items lk with
  | nil => simp [listScan]
  | cons x r ih =>
    cases hpr : pre.isPrefixOf x.1 with
    | false =>
      rw [takeWhile_cons_of_neg (by rw [hpr]; decide)]
      rw [listScan, if_pos hpr]
      simp
    | true =>
      have htk : (x :: r).takeWhile (fun x => pre.isPrefixOf x.1) =
          x :: r.takeWhile fun x => pre.isPrefixOf x.1 := takeWhile_cons_of_pos hpr
      rw [htk] at hf ⊢
      obtain ⟨m, hm⟩ : ∃ m, limit - items.length = m + 1 := ⟨limit - items.length - 1, by omega⟩
      rw [listScan_cons hpr (hf x mem_cons_self), hm, take_succ_cons]
      by_cases hfl : limit ≤ (items ++ [f x]).length
      · -- the page is full, so nothing is taken after `x`
        have hz : m = 0 := by
          rw [length_append, length_singleton] at hfl
          omega
        rw [if_pos hfl, hz]
        rfl
      · rw [if_neg hfl, ih (items ++ [f x]) (some x.1) (by omega)
          fun y hy => hf y (mem_cons_of_mem x hy)]
        have hr : limit - (items ++ [f x]).length = m := by
          rw [length_append, length_singleton]
          omega
        rw [hr, append_assoc, getLast?_cons]
        cases ((r.takeWhile fun x => pre.isPrefixOf x.1).take m).getLast? <;> rfl

/-! ## what a token stands for -/

section
variable (s : LocalStorage) (P : Bytes)

def matching : List (Bytes × Bytes) := s.index.entries.filter fun x => P.isPrefixOf x.1

/-- the index entries that a scan with the token `t` goes through -/
def scanFrom (t : Option Bytes) : List (Bytes × Bytes) :=
  (s.index.rangeFrom (t.getD P)).takeWhile fun x => P.isPrefixOf x.1

theorem sorted_matching : (matching s P).Pairwise fun a b => a.1 < b.1 := s.index.sorted.filter _

variable {s P}

theorem le_of_mem_matching (hx : x ∈ matching s P) : P ≤ x.1 :=
  le_of_isPrefix <| isPrefixOf_iff_prefix.mp (mem_filter.mp hx).2

theorem scanFrom_none : scanFrom s P none = matching s P := by
  show (s.index.rangeFrom P).takeWhile _ = _
  rw [s.index.scan_eq_filter (block_isPrefix (le_refl P))]
  apply filter_congr
  intro x _
  cases hx : P.isPrefixOf x.1 with
  | false => exact Bool.and_false _
  | true =>
    rw [Bool.and_true]
    exact decide_eq_true <| le_of_isPrefix <| isPrefixOf_iff_prefix.mp hx

theorem scanFrom_some {c : Bytes} (hc : P ≤ c) :
    scanFrom s P (some c) = (matching s P).filter fun x => decide (c ≤ x.1) := by
  show (s.index.rangeFrom c).takeWhile _ = _
  rw [s.index.scan_eq_filter (block_isPrefix hc), matching, filter_filter]

theorem scanFrom_suffix (t : Option Bytes) : scanFrom s P t <:+ matching s P := by
  have hbl : ∀ a, P.isPrefixOf a = true → OrdMap.Block a fun x => P.isPrefixOf x := fun a ha =>
    block_isPrefix <| le_of_isPrefix <| isPrefixOf_iff_prefix.mp ha
  rcases s.index.scan_eq_nil_or hbl (t.getD P) with h | h
  · show (s.index.rangeFrom (t.getD P)).takeWhile _ <:+ _
    rw [h]
    exact nil_suffix
  · show (s.index.rangeFrom (t.getD P)).takeWhile _ <:+ _
    rw [h]
    exact OrdMap.filter_le_suffix _ (sorted_matching s P)

/-- the token that `list_prefix` makes of the entries from its start on -/
def tokenOf (limit : Nat) (r : List (Bytes × Bytes)) : Option Bytes :=
  if limit ≤ r.length then ((r.take limit).getLast?).map fun x => raiseLast x.1 else none

/-- the pages of `list_prefix` as index entries -/
def entryPage (s : LocalStorage) (P : Bytes) (limit : Nat) (_ : Nat) (t : Option Bytes) :
    StorageResult (Page (Bytes × Bytes) Bytes) :=
  .ok ⟨(scanFrom s P t).take limit, decide (limit ≤ (scanFrom s P t).length),
    tokenOf limit (scanFrom s P t)⟩

theorem serves_entryPage (hlimit : 0 < limit) :
    Serves (entryPage s P limit) limit (scanFrom s P) (fun r => decide (limit ≤ r.length))
      (tokenOf limit) where
  limit_pos := hlimit
  page_eq := fun _ _ => rfl
  rest_of_more := fun _ h => of_decide_eq_true h
  all_of_not_more := fun _ h => (not_le.mp (of_decide_eq_false h)).le
  more_mono := fun _ _ hle h => decide_eq_true (le_trans (of_decide_eq_true h) hle)

theorem IndexCoherent.entry {K : StorageKey → Prop} (hs : IndexCoherent K s)
    (hx : x ∈ matching s P) :
    ∃ k e, K k ∧ x = (k.indexKey, k.toBytes) ∧ s.data.get k.toBytes = some e := by
  have hg : s.index.get x.1 = some x.2 := OrdMap.get_eq_some.mpr (mem_filter.mp hx).1
  obtain ⟨k, hk, hky⟩ := hs.index_keys _ _ hg
  rw [hky, hs.index_get k hk] at hg
  obtain ⟨e, he, hby⟩ := Option.map_eq_some_iff.mp hg
  exact ⟨k, e, hk, Prod.ext hky hby.symm, he⟩

theorem scanFrom_raised {init rest : List (Bytes × Bytes)} (hx : x.1 = k.indexKey)
    (hr : init ++ x :: rest <:+ matching s P) :
    scanFrom s P (some (raiseLast x.1)) = rest.filter fun y => decide (raiseLast x.1 ≤ y.1) := by
  obtain ⟨pre, hbf⟩ := hr
  have ha : matching s P = (pre ++ init) ++ x :: rest := by
    rw [← hbf, append_assoc]
  have hm : x ∈ matching s P := by
    rw [ha]
    exact mem_append_right _ mem_cons_self
  have hlt : x.1 < raiseLast x.1 := by
    rw [hx]
    exact lt_raiseLast k
  have hs := sorted_matching s P
  rw [ha] at hs
  rw [scanFrom_some (le_trans (le_of_mem_matching hm) hlt.le), ha,
    OrdMap.filter_le_append_cons hlt.le hs, filter_cons_of_neg]
  rw [decide_eq_true_eq]
  exact not_le.mpr hlt

section
variable {K : StorageKey → Prop} {limit : Nat} {r : List (Bytes × Bytes)}

variable (hs : IndexCoherent K s) (hlm : 0 < limit) (hr : r <:+ matching s P)
  (hl : limit ≤ r.length)

section
include hs hlm hr hl

theorem next_page :
    ∃ init x, ∃ k : StorageKey, x.1 = k.indexKey ∧
      r = init ++ x :: r.drop limit ∧ r[limit - 1]? = some x ∧
      scanFrom s P (tokenOf limit r) =
        (r.drop limit).filter fun y => decide (raiseLast x.1 ≤ y.1) := by
  obtain ⟨init, x, hta, hsp, hls⟩ := exists_last_of_page hlm hl
  have htk : tokenOf limit r = some (raiseLast x.1) := by
    rw [tokenOf, if_pos hl, hta, getLast?_append]
    rfl
  have hm : x ∈ matching s P := by
    refine hr.subset ?_
    rw [hsp]
    exact mem_append_right _ mem_cons_self
  obtain ⟨k, e, -, hx, -⟩ := hs.entry hm
  have hk : x.1 = k.indexKey := congrArg Prod.fst hx
  refine ⟨init, x, k, hk, hsp, hls, ?_⟩
  rw [htk]
  exact scanFrom_raised hk (hsp ▸ hr)

/-- The tokens of `list_prefix` only skip. -/
theorem next_suffix : scanFrom s P (tokenOf limit r) <:+ r.drop limit := by
  obtain ⟨init, x, k, -, -, -, hnx⟩ := next_page hs hlm hr hl
  rw [hnx]
  exact OrdMap.filter_le_suffix _ ((sorted_matching s P).sublist
    ((drop_sublist limit r).trans hr.sublist))

theorem clean_iff :
    CleanAfter limit (scanFrom s P) (tokenOf limit) r ↔
      ∀ x y, r[limit - 1]? = some x → r[limit]? = some y → ¬ x.1 <+: y.1 := by
  obtain ⟨init, x, k, hk, hsp, hls, hnx⟩ := next_page hs hlm hr hl
  have hsr := (sorted_matching s P).sublist hr.sublist
  rw [hsp, pairwise_append, pairwise_cons] at hsr
  have hlr := hsr.2.1.1
  have hrs : ∀ y ∈ r.drop limit, raiseLast x.1 ≤ y.1 ↔ ¬ x.1 <+: y.1 := by
    intro y hy
    have hlt := hlr y hy
    rw [hk] at hlt ⊢
    exact raiseLast_le_iff k hlt
  have hh : r[limit]? = (r.drop limit)[0]? := by
    rw [getElem?_drop, Nat.add_zero]
  rw [CleanAfter, hnx, hls, hh]
  constructor
  · intro hcl x' y hx' hy
    cases hx'
    have hm := mem_of_getElem? hy
    have hps := filter_eq_self.mp hcl y hm
    exact (hrs y hm).mp (of_decide_eq_true hps)
  · intro hfr
    rw [filter_eq_self]
    intro z hz
    cases hrt : r.drop limit with
    | nil =>
      rw [hrt] at hz
      exact absurd hz not_mem_nil
    | cons y rest =>
      rw [hrt] at hz hfr
      have hy := (hrs y (hrt ▸ mem_cons_self)).mpr (hfr x y rfl rfl)
      rw [hrt] at hsr
      rcases mem_cons.mp hz with rfl | hz
      · exact decide_eq_true hy
      · exact decide_eq_true (le_trans hy ((pairwise_cons.mp hsr.2.1.2).1 z hz).le)

end

end

end

/-! ## which entries match -/

theorem hexByte_ne_colon : ∀ n < 16, hexByte n ≠ colon := by decide

theorem colon_notMem_hexBytes (bs : Bytes) : colon ∉ hexBytes bs := by
  intro h
  obtain ⟨b, -, hb⟩ := mem_flatMap.mp h
  have hlt := b.toNat_lt
  simp only [mem_cons, not_mem_nil, or_false] at hb
  rcases hb with hb | hb
  · exact hexByte_ne_colon _ (by omega) hb.symm
  · exact hexByte_ne_colon _ (by omega) hb.symm

theorem scanPrefix_eq (ns : String) (pre : Option Bytes) :
    scanPrefix ns pre = utf8 ns ++ colon :: hexBytes (pre.getD []) := by
  cases pre with
  | none =>
    show utf8 (ns ++ ":") = _
    rfl
  | some p => exact indexKey_eq ⟨ns, p⟩

theorem scanPrefix_isPrefix (hk : ColonFree k.ns) (ns : String) (pre : Option Bytes) :
    scanPrefix ns pre <+: k.indexKey ↔ k.ns = ns ∧ pre.getD [] <+: k.key := by
  rw [scanPrefix_eq, indexKey_eq]
  constructor
  · rintro ⟨c, hc⟩
    rw [append_assoc, cons_append] at hc
    have hns : ColonFree ns := by
      -- the index key has one `:` only, and the prefix already has it after the namespace
      intro hm
      have hcn := congrArg (count colon) hc
      rw [count_append, count_append, count_cons_self, count_cons_self,
        count_eq_zero.mpr hk, count_eq_zero.mpr (colon_notMem_hexBytes k.key)] at hcn
      have hp := count_pos_iff.mpr hm
      omega
    obtain ⟨hnm, hr⟩ := append_cons_inj hns hk hc
    exact ⟨(utf8_inj hnm).symm, hexBytes_isPrefix.mp ⟨c, hr⟩⟩
  · rintro ⟨rfl, hpr⟩
    rw [prefix_append_right_inj, cons_prefix_cons]
    exact ⟨rfl, hexBytes_isPrefix.mpr hpr⟩

/-! ## complete listings -/

structure Asked (s : LocalStorage) (ns : String) (pre : Option Bytes) (k : StorageKey)
    (e : LocalEntry) : Prop where
  colonFree : ColonFree k.ns
  ns_eq : k.ns = ns
  isPrefix : pre.getD [] <+: k.key
  stored : s.data.get k.toBytes = some e

/-- every entry asked for, exactly once -/
structure CompleteListing (s : LocalStorage) (ns : String) (pre : Option Bytes)
    (items : List Item) : Prop where
  nodup : (items.map Prod.fst).Nodup
  mem_iff : ∀ k v, (k, v) ∈ items ↔ ∃ e, Asked s ns pre k e ∧ e.value = v

def askedKeys (s : LocalStorage) (ns : String) (pre : Option Bytes) : List StorageKey :=
  (matching s (scanPrefix ns pre)).filterMap fun x => parseKey x.2

/-- No page ends with a key that the next key extends. -/
def CleanBoundaries (limit : Nat) (keys : List StorageKey) : Prop :=
  ∀ j a b, keys[j * limit + (limit - 1)]? = some a → keys[j * limit + limit]? = some b →
    ¬ a.key <+: b.key

def Unexpired (s : LocalStorage) (now : Int64) : Prop :=
  ∀ d e, s.data.get d = some e → e.value.metadata.isExpired now = false

section
variable {K : StorageKey → Prop} {s : LocalStorage} {ns : String} {pre : Option Bytes}

def placeOf (k : StorageKey) : Bytes × Bytes := (k.indexKey, k.toBytes)

variable {e : LocalEntry}

def valueAt (s : LocalStorage) (d : Bytes) : StoredValue :=
  match s.data.get d with
  | some e => e.value
  | none => .new sampleCrypto 0 [] none

/-- the item of an index entry -/
def itemOf (s : LocalStorage) (x : Bytes × Bytes) : Item :=
  ((parseKey x.2).getD ⟨"", x.2⟩, valueAt s x.2)

theorem itemOf_placeOf (hk : Legible k)
    (he : s.data.get k.toBytes = some e) : itemOf s (placeOf k) = (k, e.value) := by
  show ((parseKey k.toBytes).getD _, valueAt s k.toBytes) = _
  rw [parseKey_toBytes hk, valueAt, he]
  rfl

theorem itemAt_eq_itemOf (he : s.data.get x.2 = some e)
    (hlv : e.value.metadata.isExpired now = false) (hpr : parseKey x.2 = some k) :
    itemAt now s x = some (itemOf s x) := by
  unfold itemAt itemOf valueAt
  rw [he, hpr]
  show (if e.value.metadata.isExpired now = false then _ else _) = _
  rw [if_pos hlv]
  rfl

theorem listPrefix_of_items (hlimit : 0 < limit)
    (ha : ∀ x ∈ matching s (scanPrefix ns pre), itemAt now s x = some (itemOf s x)) (n : Nat)
    (t : Option Bytes) :
    s.listPrefix now ns pre limit t =
      (entryPage s (scanPrefix ns pre) limit n t).map (Page.map (itemOf s)) := by
  have him : ∀ x ∈ (s.index.rangeFrom (t.getD (scanPrefix ns pre))).takeWhile
      (fun x => (scanPrefix ns pre).isPrefixOf x.1), itemAt now s x = some (itemOf s x) :=
    fun x hx => ha x ((scanFrom_suffix t).subset hx)
  have hsc := listScan_spec _ [] none hlimit him
  rw [LocalStorage.listPrefix, hsc, entryPage, scanFrom]
  generalize (s.index.rangeFrom (t.getD (scanPrefix ns pre))).takeWhile _ = r
  have hlen : limit ≤ (r.take limit).length ↔ limit ≤ r.length := by
    rw [length_take]
    omega
  simp only [nil_append, List.length_nil, Nat.sub_zero, List.length_map, Option.or_none,
    hlen, Option.map_map]
  rfl

theorem eq_map_of_parse {l : List (Bytes × Bytes)} {place : StorageKey → Bytes × Bytes}
    (h : ∀ x ∈ l, (parseKey x.2).map place = some x) :
    l = (l.filterMap fun x => parseKey x.2).map place := by
  rw [map_filterMap]
  conv_lhs => rw [← filterMap_some (l := l)]
  exact (filterMap_congr h).symm

theorem nodup_of_sorted_map {keys : List StorageKey} {place : StorageKey → Bytes × Bytes}
    (h : (keys.map place).Pairwise fun a b => a.1 < b.1) : keys.Nodup := by
  rw [pairwise_map] at h
  refine h.imp ?_
  intro a b hlt heq
  subst heq
  exact lt_irrefl _ hlt

theorem Asked.key (hs : IndexCoherent K s) (hK : AllColonFree K) (h : Asked s ns pre k e) :
    K k := by
  obtain ⟨k', hk', hby⟩ := hs.data_keys _ _ h.stored
  rw [toBytes_inj h.colonFree (hK k' hk') hby]
  exact hk'

theorem allColonFree_of_legible (hK : ∀ k, K k → Legible k) : AllColonFree K :=
  fun k hk => (hK k hk).colonFree

section
variable (hs : IndexCoherent K s) (hK : ∀ k, K k → Legible k)
include hs hK

theorem mem_matching_iff : x ∈ matching s (scanPrefix ns pre) ↔
      ∃ k e, K k ∧ Asked s ns pre k e ∧ x = placeOf k := by
  constructor
  · intro hx
    obtain ⟨k, e, hk, rfl, he⟩ := hs.entry hx
    have hpr := isPrefixOf_iff_prefix.mp (mem_filter.mp hx).2
    have hfr := (hK k hk).colonFree
    obtain ⟨hns, hky⟩ := (scanPrefix_isPrefix hfr ns pre).mp hpr
    exact ⟨k, e, hk, ⟨hfr, hns, hky, he⟩, rfl⟩
  · rintro ⟨k, e, hk, ha, rfl⟩
    refine mem_filter.mpr ⟨OrdMap.get_eq_some.mp ?_, ?_⟩
    · show s.index.get k.indexKey = some k.toBytes
      rw [hs.index_get k hk, ha.stored]
      rfl
    · exact isPrefixOf_iff_prefix.mpr
        ((scanPrefix_isPrefix ha.colonFree ns pre).mpr ⟨ha.ns_eq, ha.isPrefix⟩)

theorem matching_eq_map : matching s (scanPrefix ns pre) = (askedKeys s ns pre).map placeOf := by
  apply eq_map_of_parse
  intro x hx
  obtain ⟨k, e, hk, -, rfl⟩ := (mem_matching_iff hs hK).mp hx
  show (parseKey k.toBytes).map placeOf = _
  rw [parseKey_toBytes (hK k hk)]
  rfl

theorem mem_askedKeys : k ∈ askedKeys s ns pre ↔ ∃ e, Asked s ns pre k e := by
  constructor
  · intro hk
    obtain ⟨x, hx, hpr⟩ := mem_filterMap.mp hk
    obtain ⟨k', e, hk', ha, rfl⟩ := (mem_matching_iff hs hK).mp hx
    change parseKey k'.toBytes = some k at hpr
    rw [parseKey_toBytes (hK k' hk')] at hpr
    cases hpr
    exact ⟨e, ha⟩
  · rintro ⟨e, ha⟩
    have hk := ha.key hs (allColonFree_of_legible hK)
    exact mem_filterMap.mpr
      ⟨placeOf k, (mem_matching_iff hs hK).mpr ⟨k, e, hk, ha, rfl⟩, parseKey_toBytes (hK k hk)⟩

theorem nodup_askedKeys : (askedKeys s ns pre).Nodup := by
  have hsr := sorted_matching s (scanPrefix ns pre)
  rw [matching_eq_map hs hK] at hsr
  exact nodup_of_sorted_map hsr

theorem listPrefix_eq (hlimit : 0 < limit) (hnw : Unexpired s now) (n : Nat) (t : Option Bytes) :
    s.listPrefix now ns pre limit t =
      (entryPage s (scanPrefix ns pre) limit n t).map (Page.map (itemOf s)) := by
  refine listPrefix_of_items hlimit ?_ n t
  intro x hx
  obtain ⟨k, e, hk, ha, rfl⟩ := (mem_matching_iff hs hK).mp hx
  exact itemAt_eq_itemOf ha.stored (hnw _ e ha.stored) (parseKey_toBytes (hK k hk))

theorem cleanBoundaries_iff (hlimit : 0 < limit) :
    CleanBoundaries limit (askedKeys s ns pre) ↔
      ∀ j, limit ≤ ((matching s (scanPrefix ns pre)).drop (j * limit)).length →
        CleanAfter limit (scanFrom s (scanPrefix ns pre)) (tokenOf limit)
          ((matching s (scanPrefix ns pre)).drop (j * limit)) := by
  have hns : ∀ k ∈ askedKeys s ns pre, k.ns = ns := fun k hk => by
    obtain ⟨e, he⟩ := (mem_askedKeys hs hK).mp hk
    exact he.ns_eq
  have hat : ∀ j m, ((matching s (scanPrefix ns pre)).drop (j * limit))[m]? =
      (askedKeys s ns pre)[j * limit + m]?.map placeOf := by
    intro j m
    rw [getElem?_drop, matching_eq_map hs hK, getElem?_map]
  constructor
  · intro h j hlen
    rw [clean_iff hs hlimit (drop_suffix _ _) hlen]
    intro x y hx hy
    rw [hat] at hx hy
    obtain ⟨a, ha, rfl⟩ := Option.map_eq_some_iff.mp hx
    obtain ⟨b, hb, rfl⟩ := Option.map_eq_some_iff.mp hy
    have hsm : a.ns = b.ns := (hns a (mem_of_getElem? ha)).trans (hns b (mem_of_getElem? hb)).symm
    exact fun hpr => h j a b ha hb ((indexKey_isPrefix hsm).mp hpr)
  · intro h j a b ha hb hpr
    have hlen : limit ≤ ((matching s (scanPrefix ns pre)).drop (j * limit)).length := by
      have hlt := (List.getElem?_eq_some_iff.mp hb).1
      rw [List.length_drop, matching_eq_map hs hK, List.length_map]
      omega
    have hsm : a.ns = b.ns := (hns a (mem_of_getElem? ha)).trans (hns b (mem_of_getElem? hb)).symm
    refine (clean_iff hs hlimit (drop_suffix _ _) hlen).mp (h j hlen) (placeOf a) (placeOf b)
      ?_ ?_ ((indexKey_isPrefix hsm).mpr hpr)
    · rw [hat, ha]
      rfl
    · rw [hat, hb]
      rfl

theorem completeListing_all :
    CompleteListing s ns pre ((matching s (scanPrefix ns pre)).map (itemOf s)) := by
  rw [matching_eq_map hs hK, map_map]
  obtain ⟨hnd, hm⟩ := listed_of_keys (nodup_askedKeys hs hK)
    (fun k => mem_askedKeys hs hK)
    fun k e ha => itemOf_placeOf (hK k (ha.key hs (allColonFree_of_legible hK))) ha.stored
  exact ⟨hnd, hm⟩

theorem CompleteListing.length_eq (h : CompleteListing s ns pre items) :
    items.length = (matching s (scanPrefix ns pre)).length := by
  rw [matching_eq_map hs hK, List.length_map]
  exact length_of_listed (nodup_askedKeys hs hK) (fun k => mem_askedKeys hs hK) h.nodup h.mem_iff

end

/-- Following the continuation tokens to the end lists every entry asked for exactly once if and
only if no page ends with a key that the next key extends. -/
theorem listPrefix_complete_iff (hs : IndexCoherent K s) (hK : ∀ k, K k → Legible k)
    (ns : String) (pre : Option Bytes) {limit : Nat} (hlimit : 0 < limit) (clock : Nat → Int64)
    (hclock : ∀ n, Unexpired s (clock n)) :
    (∃ items, Pages (fun n t => s.listPrefix (clock n) ns pre limit t) 0 none items ∧
      CompleteListing s ns pre items) ↔ CleanBoundaries limit (askedKeys s ns pre) := by
  have hsr := serves_entryPage (s := s) (P := scanPrefix ns pre) hlimit
  have hsk : ∀ t, decide (limit ≤ (scanFrom s (scanPrefix ns pre) t).length) = true → _ :=
    fun t h => next_suffix hs hlimit (scanFrom_suffix t) (of_decide_eq_true h)
  constructor
  · rintro ⟨items, hpg, hcm⟩
    refine (cleanBoundaries_iff hs hK hlimit).mpr fun j hj => ?_
    obtain ⟨l, hl, rfl⟩ := (pages_map_iff fun n t =>
      listPrefix_eq hs hK hlimit (hclock n) n t).mp hpg
    have hlen := hcm.length_eq hs hK
    rw [List.length_map, ← scanFrom_none] at hlen
    have hcl := clean_of_skipping hsr hsk hl hlen j
    rw [scanFrom_none] at hcl
    exact hcl (decide_eq_true hj)
  · intro hbn
    have hal : Pages (entryPage s (scanPrefix ns pre) limit) 0 none
        (scanFrom s (scanPrefix ns pre) none) := by
      refine pages_complete hsr fun j hj => ?_
      rw [scanFrom_none] at hj ⊢
      exact (cleanBoundaries_iff hs hK hlimit).mp hbn j (of_decide_eq_true hj)
    rw [scanFrom_none] at hal
    exact ⟨_, (pages_map_iff fun n t =>
      listPrefix_eq hs hK hlimit (hclock n) n t).mpr ⟨_, hal, rfl⟩,
      completeListing_all hs hK⟩

end

/-! ## two small storages -/

def storageWith (keys : List String) :=
  trace (localNext sampleCrypto) (.inMemory "node")
    (keys.map fun key => (0, LocalOp.put ⟨"n", utf8 key⟩ [1] .default))

theorem legible_of_utf8 {ns text : String} (hns : ColonFree ns) : Legible ⟨ns, utf8 text⟩ :=
  ⟨hns, text, rfl⟩

theorem storageWith_input {keys : List String} (h : keysOf (storageWith keys).1 k) : Legible k := by
  obtain ⟨c, hc, rfl⟩ := h
  have hip := mem_map_of_mem (f := Call.input) hc
  rw [storageWith, map_input_trace] at hip
  obtain ⟨key, -, hk⟩ := mem_map.mp hip
  rw [← hk]
  exact legible_of_utf8 (by decide)

theorem indexCoherent_storageWith (keys : List String) :
    IndexCoherent (keysOf (storageWith keys).1) (storageWith keys).2 :=
  indexCoherent_of_run (fun _ hk => (storageWith_input hk).colonFree) (machineRun_trace _ _ _)

theorem forall_entries {Q : LocalEntry → Prop} (h : ∀ x ∈ s.data.entries, Q x.2) (d : Bytes)
    (e : LocalEntry) (he : s.data.get d = some e) :
    Q e := h (d, e) (OrdMap.get_eq_some.mp he)

theorem listPrefix_complete_two :
    ∃ items, Pages (fun _ t => (storageWith ["b", "a"]).2.listPrefix 0 "n" none 1 t) 0 none items ∧
      CompleteListing (storageWith ["b", "a"]).2 "n" none items := by
  refine (listPrefix_complete_iff (indexCoherent_storageWith ["b", "a"])
    (fun _ hk => storageWith_input hk) "n" none Nat.one_pos (fun _ => 0)
    fun _ => forall_entries (by decide +kernel)).mpr ?_
  have hky : askedKeys (storageWith ["b", "a"]).2 "n" none =
      [⟨"n", utf8 "a"⟩, ⟨"n", utf8 "b"⟩] := by decide +kernel
  intro j a b ha hb
  rw [hky] at ha hb
  cases j with
  | zero =>
    cases ha
    cases hb
    decide +kernel
  | succ j =>
    have hlt := (List.getElem?_eq_some_iff.mp hb).1
    simp only [List.length_cons, List.length_nil] at hlt
    omega

/-- With `a`, `aa` and `b` and one item to a page, `aa` is passed over. -/
theorem listPrefix_skips :
    ¬ ∀ (K : StorageKey → Prop) (s : LocalStorage) (ns : String) (pre : Option Bytes) (limit : Nat)
      (clock : Nat → Int64), IndexCoherent K s → (∀ k, K k → Legible k) → 0 < limit →
      (∀ n, Unexpired s (clock n)) →
      ∃ items, Pages (fun n t => s.listPrefix (clock n) ns pre limit t) 0 none items ∧
        CompleteListing s ns pre items := by
  intro h
  obtain ⟨items, hpg, hcm⟩ := h _ (storageWith ["a", "aa", "b"]).2 "n" none 1 (fun _ => 0)
    (indexCoherent_storageWith _) (fun _ hk => storageWith_input hk) Nat.one_pos
    fun _ => forall_entries (by decide +kernel)
  have hrun : Pages (fun _ t => (storageWith ["a", "aa", "b"]).2.listPrefix 0 "n" none 1 t) 0 none
      ([itemOf (storageWith ["a", "aa", "b"]).2 (placeOf ⟨"n", utf8 "a"⟩)] ++
        ([itemOf (storageWith ["a", "aa", "b"]).2 (placeOf ⟨"n", utf8 "b"⟩)] ++ [])) :=
    .more (p := ⟨_, true, some (utf8 "n:62")⟩) (by decide +kernel) rfl
      (.more (p := ⟨_, true, some (utf8 "n:63")⟩) (by decide +kernel) rfl
        (.last (p := ⟨[], false, none⟩) (by decide +kernel) rfl))
  rw [hpg.unique hrun] at hcm
  have hg : ∃ e, (storageWith ["a", "aa", "b"]).2.data.get
      (StorageKey.toBytes ⟨"n", utf8 "aa"⟩) = some e :=
    Option.isSome_iff_exists.mp (by decide +kernel)
  obtain ⟨e, he⟩ := hg
  have hm := (hcm.mem_iff ⟨"n", utf8 "aa"⟩ e.value).mpr ⟨e, ⟨by decide, rfl, nil_prefix, he⟩, rfl⟩
  have hky := mem_map_of_mem (f := Prod.fst) hm
  change StorageKey.mk "n" (utf8 "aa") ∈ _ at hky
  exact absurd hky (by decide +kernel)

end Platform.Storage
