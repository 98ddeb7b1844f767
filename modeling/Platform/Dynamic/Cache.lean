import Platform.Dynamic.Storage

/-!
# The cache makes no difference

A storage with a cache is compared with one without it that has the same tree.  What is cached is
what the tree holds (`Mirrors`), so that both find the same entry, and both find it expired at the
same times.
-/

namespace Platform.Dynamic
open Platform.Core Lib List DynamicStorage OrdMap
open scoped Lib.Bytewise

/-! ## what the tree and the cache hold -/

/-- The bytes of a Rust value without JSON, short enough for a length of 64 bits. -/
def Holds (data : Bytes) (e : StorageEntry) : Prop :=
  data = entryLayout.ser e ∧ e.value.Plain ∧ data.length < 2 ^ 64

theorem Holds.read {data : Bytes} {e : StorageEntry} (h : Holds data e) :
    readEntry data = .ok e := by
  obtain ⟨rfl, hpl, hl⟩ := h
  rw [readEntry, deserialize_entry hpl.1 hl, hpl.2]
  rfl

structure Mirrors (s d : DynamicStorage) : Prop where
  tree : d.tree = s.tree
  enabled : s.cacheEnabled = true
  disabled : d.cacheEnabled = false
  holds : ∀ {k data}, s.tree.get k = some data → ∃ e, Holds data e
  cached : ∀ {k e}, s.cache.lookup k = some e → ∃ data, s.tree.get k = some data ∧ Holds data e

/-- The same answer, and the storages still correspond. -/
structure Agree {α : Type} (x y : α × DynamicStorage) : Prop where
  out : x.1 = y.1
  mirrors : Mirrors x.2 y.2

/-- No entry of the tree is longer than a length of 64 bits can say. -/
def Fits (s : DynamicStorage) : Prop := ∀ k data, s.tree.get k = some data → data.length < 2 ^ 64

section
variable {s d : DynamicStorage} {now : SystemTime} {k data : Bytes} {e : StorageEntry}
  {key : StorageKey} {v : StorageValue} {wr : Option Hotkey} {ttl : Option Duration}

theorem hit_disabled (h : d.cacheEnabled = false) : d.hit now k = none := by
  rw [hit, h]
  rfl

theorem remember_disabled (h : d.cacheEnabled = false) : d.remember k e = d := by
  rw [DynamicStorage.remember, h]
  exact if_neg (fun ha => nomatch ha.1)

theorem hit_eq_some (h : s.hit now k = some e) :
    s.cache.lookup k = some e ∧ e.isExpired now = false := by
  unfold hit at h
  split at h
  · obtain ⟨hlk, hfr⟩ := Option.filter_eq_some_iff.mp h
    exact ⟨hlk, by simpa using hfr⟩
  · cases h

theorem Mirrors.remember (h : Mirrors s d) (hk : s.tree.get k = some data) (he : Holds data e) :
    Mirrors (s.remember k e) (d.remember k e) := by
  rw [remember_disabled h.disabled]
  unfold DynamicStorage.remember
  split
  · refine ⟨h.tree, h.enabled, h.disabled, h.holds, ?_⟩
    intro k' e' hk'
    rcases (HashMap.lookup_insert_iff _ _ _ _ _).mp hk' with ⟨rfl, rfl⟩ | ⟨_, hk'⟩
    · exact ⟨data, hk, he⟩
    · exact h.cached hk'
  · exact h

theorem Mirrors.remove (h : Mirrors s d) (k : Bytes) : Mirrors (s.remove k) (d.remove k) where
  tree := by
    show d.tree.erase k = s.tree.erase k
    rw [h.tree]
  enabled := h.enabled
  disabled := h.disabled
  holds := by
    intro k' data hk'
    rw [DynamicStorage.remove, get_erase] at hk'
    split at hk'
    · cases hk'
    · exact h.holds hk'
  cached := by
    intro k' e hk'
    have hk' : (s.cache.erase k).lookup k' = some e := by
      rw [DynamicStorage.remove, h.enabled] at hk'
      exact hk'
    obtain ⟨hne, hk'⟩ := (HashMap.lookup_erase_iff _ _ _ _).mp hk'
    rw [DynamicStorage.remove, get_erase_of_ne _ hne]
    exact h.cached hk'

theorem Mirrors.store (h : Mirrors s d) (he : Holds (entryLayout.ser e) e) (k : Bytes) :
    Mirrors (s.store k e) (d.store k e) where
  tree := by
    show d.tree.insert k _ = s.tree.insert k _
    rw [h.tree]
  enabled := h.enabled
  disabled := h.disabled
  holds := by
    intro k' data hk'
    rw [DynamicStorage.store, get_insert] at hk'
    split at hk'
    · cases hk'
      exact ⟨e, he⟩
    · exact h.holds hk'
  cached := by
    intro k' e' hk'
    unfold DynamicStorage.store at hk' ⊢
    split at hk'
    · rcases (HashMap.lookup_insert_iff _ _ _ _ _).mp hk' with ⟨rfl, rfl⟩ | ⟨hne, hk'⟩
      · exact ⟨_, get_insert_self _ _ _, he⟩
      · rw [get_insert_of_ne _ hne]
        exact h.cached hk'
    · next hrm =>
      -- a key that is in the cache always gets the new entry
      have hne : k' ≠ k := by
        intro heq
        exact hrm ⟨h.enabled, .inr (heq ▸ HashMap.mem_of_lookup hk')⟩
      rw [get_insert_of_ne _ hne]
      exact h.cached hk'

/-! ## the operations -/

theorem agree_get (h : Mirrors s d) (now : SystemTime) (key : StorageKey) :
    Agree (s.get now key) (d.get now key) := by
  unfold DynamicStorage.get
  rw [hit_disabled h.disabled, h.tree]
  split
  · next e hht =>
    obtain ⟨hlk, hfr⟩ := hit_eq_some hht
    obtain ⟨data, hg, hh⟩ := h.cached hlk
    rw [hg]
    dsimp only
    rw [hh.read]
    dsimp only
    rw [hfr, remember_disabled h.disabled]
    exact ⟨rfl, h⟩
  · cases hg : s.tree.get key.toBytes with
    | none => exact ⟨rfl, h⟩
    | some data =>
      obtain ⟨e, hh⟩ := h.holds hg
      dsimp only
      rw [hh.read]
      dsimp only
      split
      · exact ⟨rfl, h.remove key.toBytes⟩
      · exact ⟨rfl, h.remember hg hh⟩

variable {m : List (String × StorageValue)} {l : List StorageValue} {old : Option StorageEntry}

theorem plain_get (h : Mirrors s d) (hg : (s.get now key).1 = .ok old) :
    ∀ e ∈ old, e.value.Plain := by
  intro e he
  subst he
  unfold DynamicStorage.get at hg
  split at hg
  · next e' hht =>
    obtain ⟨data, _, hh⟩ := h.cached (hit_eq_some hht).1
    cases hg
    exact hh.2.1
  · split at hg
    · cases hg
    · next data hdt =>
      obtain ⟨e', hh⟩ := h.holds hdt
      rw [hh.read] at hg
      dsimp only at hg
      split at hg
      · cases hg
      · cases hg
        exact hh.2.1

theorem get_cases (h : Mirrors s d) (now : SystemTime) (key : StorageKey) :
    (∃ err s' d', s.get now key = (.error err, s') ∧ d.get now key = (.error err, d') ∧
      Mirrors s' d') ∨
    ∃ old s' d', s.get now key = (.ok old, s') ∧ d.get now key = (.ok old, d') ∧
      (∀ e ∈ old, e.value.Plain) ∧ Mirrors s' d' := by
  obtain ⟨ho, hm⟩ := agree_get h now key
  have hpl : ∀ old, (s.get now key).1 = .ok old → ∀ e ∈ old, e.value.Plain := fun _ => plain_get h
  generalize s.get now key = x at ho hm hpl
  generalize d.get now key = y at ho hm
  obtain ⟨r, s'⟩ := x
  obtain ⟨r', d'⟩ := y
  cases ho
  cases r with
  | error err => exact .inl ⟨err, s', d', rfl, rfl, hm⟩
  | ok old => exact .inr ⟨old, s', d', rfl, rfl, hpl old rfl, hm⟩

theorem value_revise (now : SystemTime) (old : Option StorageEntry) (v : StorageValue)
    (wr : Option Hotkey) (ttl : Option Duration) :
    (revise now old v wr ttl).value = v := by
  cases old <;> rfl

theorem agree_setWithOptions (h : Mirrors s d) (hv : v.Plain)
    (hft : Fits (s.setWithOptions now key v wr ttl).2) :
    Agree (s.setWithOptions now key v wr ttl) (d.setWithOptions now key v wr ttl) := by
  unfold setWithOptions at hft ⊢
  rcases get_cases h now key with ⟨err, s', d', hs, hd, hm⟩ | ⟨old, s', d', hs, hd, _, hm⟩
  · rw [hs, hd]
    exact ⟨rfl, hm⟩
  · rw [hs] at hft
    rw [hs, hd]
    refine ⟨rfl, hm.store ⟨rfl, ?_, ?_⟩ key.toBytes⟩
    · rw [value_revise]
      exact hv
    · exact hft key.toBytes _ (get_insert_self _ _ _)

theorem agree_delete (h : Mirrors s d) (now : SystemTime) (key : StorageKey) :
    Agree (s.delete now key) (d.delete now key) := by
  unfold delete
  rcases get_cases h now key with ⟨err, s', d', hs, hd, hm⟩ | ⟨old, s', d', hs, hd, _, hm⟩
  · rw [hs, hd]
    exact ⟨rfl, hm⟩
  · rw [hs, hd]
    exact ⟨rfl, hm.remove key.toBytes⟩

theorem Agree.map {α β : Type} {x y : α × DynamicStorage} (h : Agree x y) (f : α → β) :
    Agree (Prod.map f id x) (Prod.map f id y) := ⟨congrArg f h.out, h.mirrors⟩

theorem agree_increment {delta : Int64} (h : Mirrors s d)
    (hft : Fits (s.increment now key delta wr).2) :
    Agree (s.increment now key delta wr) (d.increment now key delta wr) := by
  unfold increment at hft ⊢
  rcases get_cases h now key with ⟨err, s', d', hs, hd, hm⟩ | ⟨old, s', d', hs, hd, _, hm⟩
  · rw [hs, hd]
    exact ⟨rfl, hm⟩
  · rw [hs] at hft
    rw [hs, hd]
    exact (agree_setWithOptions hm ⟨rfl, rfl⟩ hft).map _

theorem hashed_push (hl : (StorageValue.list l).hashed = true)
    (hv : v.hashed = true) : (StorageValue.list (l ++ [v])).hashed = true := by
  rw [StorageValue.hashed_list] at hl ⊢
  rw [all_append, hl, all_cons, hv]
  rfl

theorem plain_push (hl : (StorageValue.list l).Plain) (hv : v.Plain) :
    (StorageValue.list (l ++ [v])).Plain := by
  have hj := hl.2
  rw [StorageValue.jsonFree_list] at hj
  refine ⟨hashed_push hl.1 hv.1, ?_⟩
  rw [StorageValue.jsonFree_list, all_append, hj, all_cons, hv.2]
  rfl

theorem nodup_insertField {α : Type} {m : List (String × α)} (hm : (m.map Prod.fst).Nodup)
    (fld : String) (val : α) : ((insertField m fld val).map Prod.fst).Nodup := by
  rw [insertField, map_append, nodup_append]
  refine ⟨hm.sublist (filter_sublist.map _), nodup_singleton _, ?_⟩
  intro a ha b hb heq
  obtain ⟨e, he, rfl⟩ := mem_map.mp ha
  rw [mem_singleton.mp hb] at heq
  exact of_decide_eq_true (mem_filter.mp he).2 heq

theorem all_insertField {p : StorageValue → Bool} (hm : (m.all fun e => p e.2) = true)
    (hv : p v = true) (fld : String) :
    ((insertField m fld v).all fun e => p e.2) = true := by
  rw [all_eq_true] at hm ⊢
  intro e he
  rcases mem_append.mp he with he | he
  · exact hm e (mem_filter.mp he).1
  · rw [mem_singleton.mp he]
    exact hv

theorem hashed_insertField (hm : (StorageValue.map m).hashed = true) (hv : v.hashed = true)
    (fld : String) :
    (StorageValue.map (insertField m fld v)).hashed = true := by
  rw [StorageValue.hashed_map, Bool.and_eq_true] at hm ⊢
  refine ⟨decide_eq_true ?_, all_insertField hm.2 hv fld⟩
  exact nodup_insertField (of_decide_eq_true hm.1) fld v

theorem plain_insertField (hm : (StorageValue.map m).Plain) (hv : v.Plain)
    (fld : String) : (StorageValue.map (insertField m fld v)).Plain := by
  have hj := hm.2
  rw [StorageValue.jsonFree_map] at hj
  refine ⟨hashed_insertField hm.1 hv.1 fld, ?_⟩
  rw [StorageValue.jsonFree_map]
  exact all_insertField hj hv.2 fld

theorem listAt_spec {P : StorageValue → Prop} (hnl : P (.list [])) (ho : ∀ e ∈ old, P e.value)
    (hl : listAt key old = .ok l) : P (.list l) := by
  cases old with
  | none =>
    cases hl
    exact hnl
  | some e =>
    unfold listAt at hl
    dsimp only at hl
    split at hl
    · next l' hvl =>
      cases hl
      rw [← hvl]
      exact ho e rfl
    · cases hl

theorem mapAt_spec {P : StorageValue → Prop} (hnl : P (.map [])) (ho : ∀ e ∈ old, P e.value)
    (hm : mapAt key old = .ok m) : P (.map m) := by
  cases old with
  | none =>
    cases hm
    exact hnl
  | some e =>
    unfold mapAt at hm
    dsimp only at hm
    split at hm
    · next m' hvl =>
      cases hm
      rw [← hvl]
      exact ho e rfl
    · cases hm

theorem agree_listPush (h : Mirrors s d) (hv : v.Plain)
    (hft : Fits (s.listPush now key v wr).2) :
    Agree (s.listPush now key v wr) (d.listPush now key v wr) := by
  unfold listPush at hft ⊢
  rcases get_cases h now key with ⟨err, s', d', hs, hd, hm⟩ | ⟨old, s', d', hs, hd, ho, hm⟩
  · rw [hs, hd]
    exact ⟨rfl, hm⟩
  · rw [hs] at hft
    rw [hs, hd]
    dsimp only at hft ⊢
    cases hls : listAt key old with
    | error err => exact ⟨rfl, hm⟩
    | ok l =>
      rw [hls] at hft
      have hl : (StorageValue.list l).Plain := listAt_spec ⟨by decide, by decide⟩ ho hls
      exact (agree_setWithOptions hm (plain_push hl hv) hft).map _

theorem agree_mapSet {fld : String} (h : Mirrors s d) (hv : v.Plain)
    (hft : Fits (s.mapSet now key fld v wr).2) :
    Agree (s.mapSet now key fld v wr) (d.mapSet now key fld v wr) := by
  unfold mapSet at hft ⊢
  rcases get_cases h now key with ⟨err, s', d', hs, hd, hmr⟩ | ⟨old, s', d', hs, hd, ho, hmr⟩
  · rw [hs, hd]
    exact ⟨rfl, hmr⟩
  · rw [hs] at hft
    rw [hs, hd]
    dsimp only at hft ⊢
    cases hmp : mapAt key old with
    | error err => exact ⟨rfl, hmr⟩
    | ok m =>
      rw [hmp] at hft
      have hm : (StorageValue.map m).Plain := mapAt_spec ⟨by decide, by decide⟩ ho hmp
      exact agree_setWithOptions hmr (plain_insertField hm hv fld) hft

theorem agree_cleanupExpired (h : Mirrors s d) (now : SystemTime) :
    Agree (s.cleanupExpired now) (d.cleanupExpired now) := by
  unfold cleanupExpired
  rw [h.tree]
  refine ⟨rfl, rfl, h.enabled, h.disabled, ?_, ?_⟩
  · intro k data hk
    exact h.holds (get_of_foldl_erase hk)
  · intro k e hk
    rw [h.enabled, if_pos rfl] at hk
    obtain ⟨hk, hfr⟩ := (HashMap.lookup_retain_iff _ _ _ _).mp hk
    obtain ⟨data, hg, hh⟩ := h.cached hk
    -- an unexpired entry is not removed from the tree
    have hkp : k ∉ (s.tree.entries.filter fun e => expiredData now e.2).map Prod.fst := by
      intro hm
      obtain ⟨⟨_, data'⟩, hen, rfl⟩ := mem_map.mp hm
      obtain ⟨hen, he⟩ := mem_filter.mp hen
      rw [get_eq_some.mpr hen] at hg
      cases hg
      rw [expiredData, hh.read] at he
      rw [show e.isExpired now = true from he] at hfr
      cases hfr
    exact ⟨data, by rw [get_foldl_erase, if_neg hkp, hg], hh⟩

/-! ## runs -/

/-- The values that the operation writes are Rust values without JSON. -/
def DynamicOp.Plain : DynamicOp → Prop
  | .set _ value _ => value.Plain
  | .setWithTtl _ value _ _ => value.Plain
  | .listPush _ value _ => value.Plain
  | .mapSet _ _ value _ => value.Plain
  | _ => True

theorem agree_next (h : Mirrors s d) (inp : SystemTime × DynamicOp) (hop : inp.2.Plain)
    (hft : Fits (dynamicNext s inp).2) : Agree (dynamicNext s inp) (dynamicNext d inp) := by
  obtain ⟨now, op⟩ := inp
  cases op with
  | get key => exact (agree_get h now key).map _
  | set key val wr | setWithTtl key val wr ttl => exact (agree_setWithOptions h hop hft).map _
  | delete key => exact (agree_delete h now key).map _
  | increment key delta wr => exact (agree_increment h hft).map _
  | listPush key val wr => exact (agree_listPush h hop hft).map _
  | mapSet key fld val wr => exact (agree_mapSet h hop hft).map _
  | cleanupExpired => exact (agree_cleanupExpired h now).map fun n => DynamicOut.count (.ok n)
  | clearCache => exact ⟨rfl, h.tree, h.enabled, h.disabled, h.holds, fun hk => nomatch hk⟩

/-- **The cache is transparent**: at the same times, the same calls return the same results with a
cache of any size and without one. -/
theorem cache_transparent (maxSize maxSize' : Nat) {inputs : List (SystemTime × DynamicOp)}
    (hplain : ∀ input ∈ inputs, input.2.Plain)
    (hfits : ∀ c ∈ (trace dynamicNext (.new true maxSize) inputs).1, Fits c.after) :
    (trace dynamicNext (.new true maxSize) inputs).1.map Call.out =
      (trace dynamicNext (.new false maxSize') inputs).1.map Call.out := by
  refine map_out_trace_eq (R := Mirrors) ?_ ?_ hfits
  · intro s d input hm hip hf
    obtain ⟨ho, hnx⟩ := agree_next hm input (hplain input hip) hf
    exact ⟨ho, hnx⟩
  · exact ⟨rfl, rfl, rfl, (fun hk => nomatch hk), fun hk => nomatch hk⟩

theorem fits_iff : Fits s ↔ ∀ p ∈ s.tree.entries, p.2.length < 2 ^ 64 := by
  constructor
  · intro h p hp
    exact h p.1 p.2 (get_eq_some.mpr hp)
  · intro h k data hk
    exact h (k, data) (get_eq_some.mp hk)

end

/-- a value that lives for ten seconds, read before and after that, and counted up again -/
def cacheRun : List (SystemTime × DynamicOp) :=
  [(.ofSecs 0, .setWithTtl (.system "n") (.u64 5) none ⟨10 * 10 ^ 9, by decide⟩),
    (.ofSecs 4, .increment (.system "n") 1 none),
    (.ofSecs 11, .get (.system "n")),
    (.ofSecs 12, .increment (.system "n") 1 none),
    (.ofSecs 13, .listPush (.system "n") .null none),
    (.ofSecs 14, .cleanupExpired)]

/-- a cache with room for one entry -/
theorem cache_transparent_run :
    (trace dynamicNext (.new true 1) cacheRun).1.map Call.out =
      (trace dynamicNext (.new false 1) cacheRun).1.map Call.out := by
  refine cache_transparent 1 1 ?_ ?_
  · intro inp hip
    simp only [cacheRun, mem_cons, not_mem_nil, or_false] at hip
    rcases hip with rfl | rfl | rfl | rfl | rfl | rfl
    · exact ⟨rfl, rfl⟩
    · exact trivial
    · exact trivial
    · exact trivial
    · exact ⟨rfl, rfl⟩
    · exact trivial
  · simp only [fits_iff]
    decide +kernel

end Platform.Dynamic
