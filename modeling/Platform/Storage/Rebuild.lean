import Platform.Storage.Expiry
import Platform.Storage.Isolation

/-!
# The state root over a restart

`rebuild_cache` takes the keys of the leaves from `list_prefix`, which cuts a storage key at its
first `:`: the submission `h` of a challenge comes back as `id:h`, and no epoch comes back at all.
-/

namespace Platform.Storage
open Platform.Core Lib Chain List OrdMap ChallengeStore
open scoped Lib.Bytewise

/-! ## the order of the index -/

theorem hexByte_lt : ∀ n < 16, ∀ m < 16, n < m → hexByte n < hexByte m := by decide

theorem hexBytes_lt {a b : Bytes} (h : a < b) : hexBytes a < hexBytes b := by
  induction a generalizing b with
  | nil =>
    cases b with
    | nil => exact absurd h (lt_irrefl _)
    | cons y b => exact nil_lt_cons _ _
  | cons x a ih =>
    cases b with
    | nil => exact absurd h (not_lt_nil _)
    | cons y b =>
      have hx := x.toNat_lt
      have hy := y.toNat_lt
      show hexByte (x.toNat / 16) :: hexByte (x.toNat % 16) :: hexBytes a <
        hexByte (y.toNat / 16) :: hexByte (y.toNat % 16) :: hexBytes b
      rw [cons_lt_cons_iff, cons_lt_cons_iff]
      rcases cons_lt_cons_iff.mp h with hlt | ⟨rfl, hlt⟩
      · have hlt' : x.toNat < y.toNat := UInt8.lt_iff_toNat_lt.mp hlt
        by_cases hh : x.toNat / 16 < y.toNat / 16
        · exact .inl (hexByte_lt _ (by omega) _ (by omega) hh)
        · have hs : x.toNat / 16 = y.toNat / 16 := by omega
          exact .inr ⟨by rw [hs], .inl (hexByte_lt _ (by omega) _ (by omega) (by omega))⟩
      · exact .inr ⟨rfl, .inr ⟨rfl, ih hlt⟩⟩

/-! ## what the storage holds for a map of the cache -/

/-- The entry does not expire. -/
def Lasting (e : LocalEntry) : Prop := e.value.metadata.ttlSeconds = 0

variable {category id : String} {e : LocalEntry}

theorem Lasting.isExpired (h : Lasting e) (now : Int64) :
    e.value.metadata.isExpired now = false := if_pos h

/-- The keys of `m` are the ones in the area `A`, and the hashes those of their values. -/
structure Mirrors (C : Crypto) (A : Bytes) (m : OrdMap Bytes Bytes32) (s : LocalStorage) :
    Prop where
  entry : ∀ k h, m.get k = some h →
    ∃ e, s.data.get (A ++ k) = some e ∧ Lasting e ∧ hashBytes C e.value.data = h
  vacant : ∀ k, m.get k = none → s.data.get (A ++ k) = none
  index : ∀ x d, A <+: x → (s.index.get x = some d ↔
    ∃ k h, m.get k = some h ∧ x = A ++ hexBytes k ∧ d = A ++ k)
  text : ∀ k h, m.get k = some h → ∃ str, utf8 str = k

section
variable {C : Crypto} {A : Bytes} {m : OrdMap Bytes Bytes32} {s s' : LocalStorage}

theorem mirrors_empty (hdt : ∀ x, A <+: x → s.data.get x = none)
    (hix : ∀ x, A <+: x → s.index.get x = none) : Mirrors C A ∅ s where
  entry := fun _ _ h => nomatch h
  vacant := fun k _ => hdt _ (prefix_append A k)
  index := by
    intro x d hx
    rw [hix x hx]
    constructor
    · intro h
      cases h
    · rintro ⟨k, h, hg, -⟩
      cases hg
  text := fun _ _ h => nomatch h

theorem Mirrors.frame (hm : Mirrors C A m s) (hs : SameUnder A s s') : Mirrors C A m s' where
  entry := by
    intro k h hk
    rw [hs.data _ (prefix_append A k)]
    exact hm.entry k h hk
  vacant := by
    intro k hk
    rw [hs.data _ (prefix_append A k)]
    exact hm.vacant k hk
  index := by
    intro x d hx
    rw [hs.index x hx]
    exact hm.index x d hx
  text := hm.text

theorem Mirrors.written (hm : Mirrors C A m s) {K : StorageKey} {k : Bytes} {str : String}
    (hby : K.toBytes = A ++ k) (hik : K.indexKey = A ++ hexBytes k) (hsr : utf8 str = k)
    (he : Lasting e) (old : Option LocalEntry) :
    Mirrors C A (m.insert k (hashBytes C e.value.data)) (s.written C K old e) where
  entry := by
    intro k' h hk'
    show ∃ e', (s.data.insert K.toBytes e).get (A ++ k') = some e' ∧ _
    rw [hby]
    by_cases heq : k' = k
    · subst heq
      rw [get_insert_self] at hk' ⊢
      exact ⟨e, rfl, he, Option.some_inj.mp hk'⟩
    · rw [get_insert_of_ne _ heq] at hk'
      rw [get_insert_of_ne _ fun h => heq (append_cancel_left h)]
      exact hm.entry k' h hk'
  vacant := by
    intro k' hk'
    show (s.data.insert K.toBytes e).get (A ++ k') = none
    rw [hby]
    by_cases heq : k' = k
    · rw [heq, get_insert_self] at hk'
      cases hk'
    · rw [get_insert_of_ne _ heq] at hk'
      rw [get_insert_of_ne _ fun h => heq (append_cancel_left h)]
      exact hm.vacant k' hk'
  index := by
    intro x d hx
    show (s.index.insert K.indexKey K.toBytes).get x = some d ↔ _
    rw [hby, hik]
    by_cases heq : x = A ++ hexBytes k
    · subst heq
      rw [get_insert_self, Option.some_inj]
      constructor
      · rintro rfl
        exact ⟨k, _, get_insert_self _ _ _, rfl, rfl⟩
      · rintro ⟨k', h, -, hh, rfl⟩
        rw [hexBytes_inj (append_cancel_left hh)]
    · rw [get_insert_of_ne _ heq, hm.index x d hx]
      constructor
      · rintro ⟨k', h, hk', rfl, rfl⟩
        have hne : k' ≠ k := fun h => heq (by rw [h])
        exact ⟨k', h, (get_insert_of_ne _ hne _).trans hk', rfl, rfl⟩
      · rintro ⟨k', h, hk', rfl, rfl⟩
        have hne : k' ≠ k := fun h => heq (by rw [h])
        exact ⟨k', h, (get_insert_of_ne _ hne _).symm.trans hk', rfl, rfl⟩
  text := by
    intro k' h hk'
    by_cases heq : k' = k
    · exact ⟨str, hsr.trans heq.symm⟩
    · rw [get_insert_of_ne _ heq] at hk'
      exact hm.text k' h hk'

theorem Mirrors.matching_eq (hm : Mirrors C A m s) :
    matching s A = m.entries.map fun e => (A ++ hexBytes e.1, A ++ e.1) := by
  have hs : (m.entries.map fun e => (A ++ hexBytes e.1, A ++ e.1)).Pairwise
      fun a b => a.1 < b.1 :=
    pairwise_map.mpr (m.sorted.imp fun h => append_left_lt (hexBytes_lt h))
  have hmp : (⟨matching s A, sorted_matching s A⟩ : OrdMap Bytes Bytes) = ⟨_, hs⟩ := by
    apply OrdMap.ext_get
    intro x
    apply Option.ext
    intro d
    rw [get_eq_some, get_eq_some]
    show (x, d) ∈ s.index.entries.filter _ ↔ (x, d) ∈ m.entries.map _
    rw [mem_filter, mem_map, ← get_eq_some, isPrefixOf_iff_prefix]
    constructor
    · rintro ⟨hg, hx⟩
      obtain ⟨k, h, hk, rfl, rfl⟩ := (hm.index x d hx).mp hg
      exact ⟨(k, h), get_eq_some.mp hk, rfl⟩
    · rintro ⟨⟨k, h⟩, hk, heq⟩
      cases heq
      have hx : A <+: A ++ hexBytes k := prefix_append _ _
      exact ⟨(hm.index _ _ hx).mpr ⟨k, h, get_eq_some.mpr hk, rfl, rfl⟩, hx⟩
  exact congrArg entries hmp

end

/-! ## reading the leaves back -/

/-- a key as the listing gives it back -/
def underId (id : String) (k : Bytes) : Bytes := utf8 id ++ colon :: k

theorem underId_lt {a b : Bytes} : a < b → underId id a < underId id b := fun h =>
  append_left_lt (cons_lt_cons_iff.mpr (.inr ⟨rfl, h⟩))

theorem underId_utf8 (id str : String) : underId id (utf8 str) = utf8 (id ++ ":" ++ str) :=
  (utf8_colon id str).symm

theorem parseKey_area (hct : ColonFree category) (id str : String) :
    parseKey (area category id ++ utf8 str) = some ⟨category, underId id (utf8 str)⟩ := by
  have hby : area category id ++ utf8 str =
      StorageKey.toBytes ⟨category, utf8 (id ++ ":" ++ str)⟩ := by
    rw [← underId_utf8, area, utf8_colon]
    simp [StorageKey.toBytes, underId]
  rw [hby, parseKey_toBytes ⟨hct, _, rfl⟩, underId_utf8]

section
variable {C : Crypto} {s : LocalStorage}

theorem collectLeaves_eq {κ : Type} [LinearOrder κ] {keyOf : String → Option κ}
    {its : List Item} {l : List (κ × Bytes32)}
    (h : List.Forall₂ (fun item e => item.1.keyString.bind keyOf = some e.1 ∧
      hashBytes C item.2.data = e.2) its l) :
    collectLeaves C keyOf its = l.foldl (fun m e => m.insert e.1 e.2) ∅ := by
  unfold collectLeaves
  generalize (∅ : OrdMap κ Bytes32) = ls
  induction h generalizing ls with
  | nil => rfl
  | @cons item e its l him _ ih =>
    obtain ⟨hk, hh⟩ := him
    rw [foldl_cons, foldl_cons, ← ih]
    simp only [hk, hh]

theorem Mirrors.readable (hm : Mirrors C (area category id) m s)
    (hct : ColonFree category) : ∀ e ∈ m.entries, ∃ v,
      s.data.get (area category id ++ e.1) = some v ∧ Lasting v ∧
      hashBytes C v.value.data = e.2 ∧
      parseKey (area category id ++ e.1) = some ⟨category, underId id e.1⟩ ∧
      fromUtf8 (underId id e.1) = some (id ++ ":" ++ (fromUtf8 e.1).getD "") := by
  rintro ⟨k, h⟩ he
  have hk := get_eq_some.mpr he
  obtain ⟨v, hv, hls, hh⟩ := hm.entry k h hk
  obtain ⟨str, rfl⟩ := hm.text k h hk
  refine ⟨v, hv, hls, hh, parseKey_area hct id str, ?_⟩
  rw [underId_utf8, fromUtf8_utf8, fromUtf8_utf8]
  rfl

/-- **One category** is read back whole if it fits into the limit, with all keys renamed. -/
theorem listPrefix_of_mirrors {ns : String} (hct : ColonFree category)
    (hns : scanPrefix ns none = area category id) {m : OrdMap Bytes Bytes32}
    (hm : Mirrors C (area category id) m s) {limit : Nat} (hp : 0 < limit)
    (hl : m.size ≤ limit) (now : Int64) :
    ∃ page, s.listPrefix now ns none limit none = .ok page ∧
      OrdMap.Renames (underId id) m (collectLeaves C (fun k => some (utf8 k)) page.items) ∧
      page.items.length = m.size := by
  have hen := hm.readable hct
  have hmt := hm.matching_eq
  have hal : ∀ x ∈ matching s (scanPrefix ns none), itemAt now s x = some (itemOf s x) := by
    intro x hx
    rw [hns, hmt] at hx
    obtain ⟨e, he, rfl⟩ := mem_map.mp hx
    obtain ⟨v, hv, hls, -, hpr, -⟩ := hen e he
    exact itemAt_eq_itemOf hv (hls.isExpired now) hpr
  have hwh : (scanFrom s (scanPrefix ns none) none).take limit =
      m.entries.map fun e => (area category id ++ hexBytes e.1, area category id ++ e.1) := by
    rw [scanFrom_none, hns, hmt]
    exact take_of_length_le ((length_map _).trans_le hl)
  refine ⟨_, listPrefix_of_items hp hal 0 none, ?_, ?_⟩
  · show (collectLeaves C _
      (((scanFrom s (scanPrefix ns none) none).take limit).map (itemOf s))).entries = _
    rw [hwh, map_map, collectLeaves_eq (l := m.entries.map fun e => (underId id e.1, e.2)),
      entries_foldl_of_sorted]
    · rfl
    · exact pairwise_map.mpr (m.sorted.imp underId_lt)
    · intro a ha
      cases ha
    · rw [forall₂_map_left_iff, forall₂_map_right_iff, forall₂_same]
      intro e he
      obtain ⟨v, hv, -, hh, hpr, ht⟩ := hen e he
      constructor
      · show ((parseKey (area category id ++ e.1)).getD _).keyString.bind _ = _
        rw [hpr]
        show (fromUtf8 (underId id e.1)).bind _ = _
        rw [ht]
        exact congrArg some (fromUtf8_eq_some.mp ht)
      · show hashBytes C (valueAt s (area category id ++ e.1)).data = e.2
        rw [valueAt, hv]
        exact hh
  · show (((scanFrom s (scanPrefix ns none) none).take limit).map (itemOf s)).length = _
    rw [hwh, length_map, length_map]
    rfl

end

/-! ## what the storage holds for a challenge -/

structure Stored (C : Crypto) (id : String) (cache : LeafCache) (s : LocalStorage) : Prop where
  submissions : Mirrors C (area "submissions" id) cache.submissions s
  evaluations : Mirrors C (area "evaluations" id) cache.evaluations s
  weights : Mirrors C (area "weights" id) ∅ s
  noWeights : cache.weights = ∅

/-- Nothing is stored for the challenge `id`. -/
def Unused (id : String) (s : LocalStorage) : Prop :=
  ∀ category ∈ categories, ∀ x, area category id <+: x →
    s.data.get x = none ∧ s.index.get x = none

theorem unused_inMemory (id nodeId : String) : Unused id (.inMemory nodeId) :=
  fun _ _ _ _ => ⟨rfl, rfl⟩

section
variable {C : Crypto} {id : String} {s : LocalStorage} {cache : LeafCache}

theorem stored_of_unused (h : Unused id s) : Stored C id .new s := by
  have hem : ∀ category ∈ categories, Mirrors C (area category id) ∅ s :=
    fun category hc => mirrors_empty (fun x hx => (h category hc x hx).1)
      fun x hx => (h category hc x hx).2
  exact ⟨hem _ (by decide), hem _ (by decide), hem _ (by decide), rfl⟩

theorem scanPrefix_area (category : String) :
    scanPrefix ((new id).namespaceOf category) none = area category id := by
  rfl

/-- **The rebuilt cache**: submissions and evaluations under the keys `id:k`, and no weights. -/
theorem rebuildCache_eq (h : Stored C id cache s) (hsu : cache.submissions.size ≤ 10000)
    (hev : cache.evaluations.size ≤ 100000) (now : Int64) :
    ∃ subs evs, (new id).rebuildCache C (localStore C) now s = (.ok (), s, ⟨id, ⟨subs, evs, ∅⟩⟩) ∧
      OrdMap.Renames (underId id) cache.submissions subs ∧
      OrdMap.Renames (underId id) cache.evaluations evs := by
  obtain ⟨p₁, hp₁, hsb, -⟩ := listPrefix_of_mirrors (colonFree_of_category _ (by decide))
    (scanPrefix_area "submissions") h.submissions (by decide) hsu now
  obtain ⟨p₂, hp₂, hes, -⟩ := listPrefix_of_mirrors (colonFree_of_category _ (by decide))
    (scanPrefix_area "evaluations") h.evaluations (by decide) hev now
  obtain ⟨p₃, hp₃, -, hn⟩ := listPrefix_of_mirrors (colonFree_of_category _ (by decide))
    (scanPrefix_area "weights") h.weights (by decide) (Nat.zero_le 10000) now
  refine ⟨_, _, ?_, hsb, hes⟩
  have him : p₃.items = [] := length_eq_zero_iff.mp hn
  unfold rebuildCache
  simp only [localStore, hp₁, hp₂, hp₃, him]
  rfl

end

/-! ## a call on the challenge -/

section
variable {sub ev wts : Type} {C : Crypto} {R : Records sub ev wts} {id : String}
  {s : LocalStorage}

def leafStep (C : Crypto) (R : Records sub ev wts) (cache : LeafCache)
    (op : StoreOp sub ev wts) : LeafCache :=
  match op.bytes R with
  | .error _ => cache
  | .ok data => op.insertLeaf (hashBytes C data) cache

def challengeEntry (C : Crypto) (now : Int64) (s : LocalStorage) (k : StorageKey) (data : Bytes) :
    LocalEntry :=
  LocalStorage.entryFor C now s.nodeId (s.data.get k.toBytes) data .default none

theorem localPut_eq {k : StorageKey} (now : Int64) (data : Bytes) :
    (localStore C).put now s k data .default =
      (.ok (challengeEntry C now s k data).value.metadata,
        s.written C k (s.data.get k.toBytes) (challengeEntry C now s k data)) := rfl

variable {t : LocalStorage × ChallengeStore}

/-- **One call**: it fails in the serialization and changes nothing, or it puts its entry and its
leaf. -/
theorem next_cases (t : LocalStorage × ChallengeStore) (now : Int64) (op : StoreOp sub ev wts) :
    ((∃ err, op.bytes R = .error err) ∧
      (challengeNext C (localStore C) R t (now, op)).2 = t) ∨
    ∃ data, op.bytes R = .ok data ∧ (challengeNext C (localStore C) R t (now, op)).2 =
      (t.1.written C (op.key t.2) (t.1.data.get (op.key t.2).toBytes)
        (challengeEntry C now t.1 (op.key t.2) data),
      { t.2 with leafCache := op.insertLeaf (hashBytes C data) t.2.leafCache }) := by
  rcases challengeNext_cases C (localStore C) R t now op with
    ⟨err, hby, hnx⟩ | ⟨data, hby, ⟨err, her, -⟩ | ⟨m, i, -, -, hnx⟩⟩
  · exact .inl ⟨⟨err, hby⟩, congrArg Prod.snd hnx⟩
  · rw [localPut_eq] at her
    cases her
  · refine .inr ⟨data, hby, ?_⟩
    rw [hnx, localPut_eq]

theorem challengeId_of_next (t : LocalStorage × ChallengeStore) (now : Int64)
    (op : StoreOp sub ev wts) :
    (challengeNext C (localStore C) R t (now, op)).2.2.challengeId = t.2.challengeId :=
  (storage_of_next t now op).1

theorem leafCache_of_next (t : LocalStorage × ChallengeStore) (now : Int64)
    (op : StoreOp sub ev wts) :
    (challengeNext C (localStore C) R t (now, op)).2.2.leafCache =
      leafStep C R t.2.leafCache op := by
  unfold leafStep
  rcases next_cases (C := C) (R := R) t now op with ⟨⟨err, hby⟩, hnx⟩ | ⟨data, hby, hnx⟩
  · rw [hnx, hby]
  · rw [hnx, hby]

end

/-! ## the calls before the restart -/

section
variable {sub ev wts : Type} {C : Crypto} {R : Records sub ev wts} {id : String}
  {s : LocalStorage} {m : OrdMap Bytes Bytes32}

def keyIn (category id str : String) : StorageKey := ⟨category ++ ":" ++ id, utf8 str⟩

theorem toBytes_keyIn (category id str : String) :
    (keyIn category id str).toBytes = area category id ++ utf8 str := by
  rw [area, append_assoc]
  rfl

theorem Mirrors.put (hm : Mirrors C (area category id) m s) (str : String) (data : Bytes)
    (now : Int64) :
    Mirrors C (area category id) (m.insert (utf8 str) (hashBytes C data))
      (s.written C (keyIn category id str) (s.data.get (keyIn category id str).toBytes)
        (challengeEntry C now s (keyIn category id str) data)) := by
  have hg : GoodPut s now (keyIn category id str) 0 := by
    refine ⟨?_, ?_⟩
    · intro old ho
      rw [toBytes_keyIn] at ho
      cases hk : m.get (utf8 str) with
      | none =>
        rw [hm.vacant _ hk] at ho
        cases ho
      | some h =>
        obtain ⟨e, he, hls, -⟩ := hm.entry _ h hk
        rw [he] at ho
        cases ho
        exact .inl ⟨rfl, hls⟩
    · show now.toInt + 1000 * ((0 : UInt64).toNat : Int) < 2 ^ 63
      have hlt := now.toInt_lt
      simpa using hlt
  have hh : Holds data now PutOptions.default.ttlSeconds
      (challengeEntry C now s (keyIn category id str) data) := holds_entryFor hg
  have hwr := hm.written (toBytes_keyIn category id str)
    (by rw [indexKey_eq, area, append_assoc]; rfl) rfl hh.ttl
    (s.data.get (keyIn category id str).toBytes)
  rw [hh.data] at hwr
  exact hwr

theorem Mirrors.put_other {cat' : String} (hc : ColonFree category) (hc' : ColonFree cat')
    (hne : cat' ≠ category) (hm : Mirrors C (area category id) m s) (str : String)
    (old : Option LocalEntry) (e : LocalEntry) :
    Mirrors C (area category id) m (s.written C (keyIn cat' id str) old e) := by
  refine hm.frame ⟨fun d hd => get_insert_of_ne _ ?_ _, fun x hx => get_insert_of_ne _ ?_ _⟩
  · rintro rfl
    rw [toBytes_keyIn] at hd
    exact hne (area_category hc' hc (prefix_append _ _) hd)
  · rintro rfl
    exact hne (area_category hc' hc (prefix_append _ _) hx)

def StoreOp.isWeights : StoreOp sub ev wts → Bool
  | .weights _ _ => true
  | .submission _ _ | .evaluation _ _ _ => false

/-- **One call before the restart.** -/
theorem Stored.step {t : LocalStorage × ChallengeStore} (hid : t.2.challengeId = id)
    (hs : Stored C id t.2.leafCache t.1) {op : StoreOp sub ev wts}
    (hwg : op.isWeights = false) (now : Int64) :
    Stored C id (challengeNext C (localStore C) R t (now, op)).2.2.leafCache
      (challengeNext C (localStore C) R t (now, op)).2.1 := by
  have hfr : ∀ category ∈ categories, ColonFree category := colonFree_of_category
  rcases next_cases (C := C) (R := R) t now op with ⟨-, hnx⟩ | ⟨data, hby, hnx⟩
  · rw [hnx]
    exact hs
  · rw [hnx]
    cases op with
    | weights epoch w => cases hwg
    | submission hash record =>
      have hk : t.2.submissionKey hash = keyIn "submissions" id hash := by rw [← hid]; rfl
      show Stored C id _ (t.1.written C (t.2.submissionKey hash) _ _)
      rw [show StoreOp.key t.2 (.submission hash record : StoreOp sub ev wts) = _ from hk, hk]
      exact ⟨hs.submissions.put hash data now,
        hs.evaluations.put_other (hfr _ (by decide)) (hfr _ (by decide)) (by decide) _ _ _,
        hs.weights.put_other (hfr _ (by decide)) (hfr _ (by decide)) (by decide) _ _ _,
        hs.noWeights⟩
    | evaluation submissionHash validator record =>
      have hk : t.2.evaluationKey submissionHash validator =
          keyIn "evaluations" id (submissionHash ++ ":" ++ validator) := by rw [← hid]; rfl
      show Stored C id _ (t.1.written C (t.2.evaluationKey submissionHash validator) _ _)
      rw [show StoreOp.key t.2 (.evaluation submissionHash validator record :
        StoreOp sub ev wts) = _ from hk, hk]
      exact ⟨hs.submissions.put_other (hfr _ (by decide)) (hfr _ (by decide)) (by decide) _ _ _,
        hs.evaluations.put (submissionHash ++ ":" ++ validator) data now,
        hs.weights.put_other (hfr _ (by decide)) (hfr _ (by decide)) (by decide) _ _ _,
        hs.noWeights⟩

abbrev StoreCall (sub ev wts : Type) :=
  Call (LocalStorage × ChallengeStore) (Int64 × StoreOp sub ev wts) (StorageResult MerkleProof)

/-- **All calls before the restart.** -/
theorem stored_of_run {s₀ : LocalStorage} (hu : Unused id s₀)
    {l : List (StoreCall sub ev wts)} {t : LocalStorage × ChallengeStore}
    (hrun : MachineRun (challengeNext C (localStore C) R) (s₀, .new id) l t)
    (hg : ∀ c ∈ l, c.input.2.isWeights = false) :
    t.2.challengeId = id ∧ Stored C id t.2.leafCache t.1 := by
  refine Run.guarded (P := fun t => t.2.challengeId = id ∧ Stored C id t.2.leafCache t.1)
    ⟨rfl, stored_of_unused hu⟩ ?_ hrun hg
  rintro t ⟨pre, ⟨now, op⟩, out, after⟩ t' ⟨hid, hs⟩ hwg hstep
  rw [hstep.after_eq]
  exact ⟨(challengeId_of_next t now op).trans hid, hs.step hid hwg now⟩

end

/-! ## keys after the restart -/

section
variable (id : String) (old : List Bytes)

/-- The key `k` stands on the same side of every old key as of its new name. -/
def SameSide (k : Bytes) : Prop :=
  ∀ o ∈ old, (k < o ∧ k < underId id o) ∨ (o < k ∧ underId id o < k)

instance (k : Bytes) : Decidable (SameSide id old k) :=
  inferInstanceAs (Decidable (∀ o ∈ old, (k < o ∧ k < underId id o) ∨ (o < k ∧ underId id o < k)))

/-- the key in the rebuilt cache for a key in the original one -/
def renamed (k : Bytes) : Bytes := if k ∈ old then underId id k else k

variable {id old}

theorem SameSide.notMem {k : Bytes} (h : SameSide id old k) : k ∉ old := by
  intro hk
  rcases h k hk with ⟨hlt, -⟩ | ⟨hlt, -⟩
  · exact lt_irrefl k hlt
  · exact lt_irrefl k hlt

theorem renamed_strictMonoOn : StrictMonoOn (renamed id old) {k | k ∈ old ∨ SameSide id old k} := by
  intro a ha b hb hab
  unfold renamed
  by_cases hao : a ∈ old
  · by_cases hbo : b ∈ old
    · rw [if_pos hao, if_pos hbo]
      exact underId_lt hab
    · rw [if_pos hao, if_neg hbo]
      rcases hb.resolve_left hbo a hao with ⟨hlt, -⟩ | ⟨-, hlt⟩
      · exact absurd hab hlt.le.not_gt
      · exact hlt
  · by_cases hbo : b ∈ old
    · rw [if_neg hao, if_pos hbo]
      rcases ha.resolve_left hao b hbo with ⟨-, hlt⟩ | ⟨hlt, -⟩
      · exact hlt
      · exact absurd hab hlt.le.not_gt
    · rw [if_neg hao, if_neg hbo]
      exact hab

variable (id old) in
structure FollowsMap (m m' : OrdMap Bytes Bytes32) : Prop where
  renames : OrdMap.Renames (renamed id old) m m'
  keys : ∀ k ∈ m.keys, k ∈ old ∨ SameSide id old k

theorem FollowsMap.insert {m m' : OrdMap Bytes Bytes32} (h : FollowsMap id old m m') {k : Bytes}
    (hk : SameSide id old k) (v : Bytes32) : FollowsMap id old (m.insert k v) (m'.insert k v) where
  renames := by
    have hnm : renamed id old k = k := if_neg hk.notMem
    have his := h.renames.insert renamed_strictMonoOn h.keys (.inr hk) v
    rwa [hnm] at his
  keys := by
    intro k' hk'
    rcases mem_keys_insert hk' with rfl | hk'
    · exact .inr hk
    · exact h.keys k' hk'

theorem followsMap_rebuilt {m m' : OrdMap Bytes Bytes32}
    (h : OrdMap.Renames (underId id) m m') : FollowsMap id m.keys m m' where
  renames := by
    show m'.entries = m.entries.map fun e => (renamed id m.keys e.1, e.2)
    rw [h]
    apply map_congr_left
    intro e he
    have hm : e.1 ∈ m.keys := mem_map.mpr ⟨e, he, rfl⟩
    rw [renamed, if_pos hm]
  keys := fun _ hk => .inl hk

end

section
variable {sub ev wts : Type} {C : Crypto} {R : Records sub ev wts} {id : String}
  {old cache cache' : LeafCache}

def Aligned (id : String) (old : LeafCache) : StoreOp sub ev wts → Prop
  | .submission hash _ => SameSide id old.submissions.keys (utf8 hash)
  | .evaluation submissionHash validator _ =>
    SameSide id old.evaluations.keys (utf8 (submissionHash ++ ":" ++ validator))
  | .weights _ _ => True

instance (id : String) (old : LeafCache) (op : StoreOp sub ev wts) :
    Decidable (Aligned id old op) :=
  match op with
  | .submission _ _ => inferInstanceAs (Decidable (SameSide _ _ _))
  | .evaluation _ _ _ => inferInstanceAs (Decidable (SameSide _ _ _))
  | .weights _ _ => inferInstanceAs (Decidable True)

/-- The cache of the restarted store beside the one of the original. -/
structure Follows (id : String) (old cache cache' : LeafCache) : Prop where
  submissions : FollowsMap id old.submissions.keys cache.submissions cache'.submissions
  evaluations : FollowsMap id old.evaluations.keys cache.evaluations cache'.evaluations
  weights : cache'.weights = cache.weights

theorem Follows.allLeaves (h : Follows id old cache cache') :
    cache'.allLeaves = cache.allLeaves := by
  rw [LeafCache.allLeaves, LeafCache.allLeaves, h.submissions.renames.values,
    h.evaluations.renames.values, h.weights]

theorem Follows.step (h : Follows id old cache cache') {op : StoreOp sub ev wts}
    (hop : Aligned id old op) :
    Follows id old (leafStep C R cache op) (leafStep C R cache' op) := by
  unfold leafStep
  cases op.bytes R with
  | error err => exact h
  | ok data =>
    cases op with
    | submission hash rd => exact ⟨h.submissions.insert hop _, h.evaluations, h.weights⟩
    | evaluation submissionHash who rd =>
      exact ⟨h.submissions, h.evaluations.insert hop _, h.weights⟩
    | weights ep rd =>
      refine ⟨h.submissions, h.evaluations, ?_⟩
      show cache'.weights.insert ep.toNat (hashBytes C data) =
        cache.weights.insert ep.toNat (hashBytes C data)
      rw [h.weights]

theorem Follows.foldl (h : Follows id old cache cache') {ops : List (StoreOp sub ev wts)}
    (hos : ∀ op ∈ ops, Aligned id old op) :
    Follows id old (ops.foldl (leafStep C R) cache) (ops.foldl (leafStep C R) cache') := by
  induction ops generalizing cache cache' with
  | nil => exact h
  | cons op ops ih =>
    exact ih (h.step (hos op mem_cons_self)) fun op' hop' => hos op' (mem_cons_of_mem op hop')

theorem computeStateRoot_congr {st st' : ChallengeStore}
    (h : st'.leafCache.allLeaves = st.leafCache.allLeaves) :
    st'.computeStateRoot C = st.computeStateRoot C := by
  rw [computeStateRoot, computeStateRoot, h]

end

/-! ## two stores over one storage -/

inductive Side where
  | original
  | restarted
deriving DecidableEq

abbrev StorePair := LocalStorage × ChallengeStore × ChallengeStore

section
variable {sub ev wts : Type}

/-- a call on one of the two stores -/
def pairNext (C : Crypto) (R : Records sub ev wts) (s : StorePair)
    (c : Int64 × Side × StoreOp sub ev wts) : StorageResult MerkleProof × StorePair :=
  match c with
  | (now, .original, op) =>
    let r := challengeNext C (localStore C) R (s.1, s.2.1) (now, op)
    (r.1, r.2.1, r.2.2, s.2.2)
  | (now, .restarted, op) =>
    let r := challengeNext C (localStore C) R (s.1, s.2.2) (now, op)
    (r.1, r.2.1, s.2.1, r.2.2)

abbrev PairCall (sub ev wts : Type) :=
  Call StorePair (Int64 × Side × StoreOp sub ev wts) (StorageResult MerkleProof)

def opsOf (side : Side) (l : List (PairCall sub ev wts)) : List (StoreOp sub ev wts) :=
  l.filterMap fun c => if c.input.2.1 = side then some c.input.2.2 else none

variable {C : Crypto} {R : Records sub ev wts} {side : Side}
  {l : List (PairCall sub ev wts)} {c : PairCall sub ev wts}

theorem opsOf_snoc (side : Side) (l : List (PairCall sub ev wts)) (c : PairCall sub ev wts) :
    opsOf side (l ++ [c]) =
      if c.input.2.1 = side then opsOf side l ++ [c.input.2.2] else opsOf side l := by
  unfold opsOf
  by_cases h : c.input.2.1 = side
  · simp [h]
  · simp [h]

structure PairInv (C : Crypto) (R : Records sub ev wts) (cache cache' : LeafCache)
    (l : List (PairCall sub ev wts)) (s : StorePair) : Prop where
  original : s.2.1.leafCache = (opsOf .original l).foldl (leafStep C R) cache
  restarted : s.2.2.leafCache = (opsOf .restarted l).foldl (leafStep C R) cache'

theorem PairInv.step {cache cache' : LeafCache} {s s' : StorePair}
    (hs : PairInv C R cache cache' l s) (h : CallStep (pairNext C R) s c s') :
    PairInv C R cache cache' (l ++ [c]) s' := by
  have ha := h.after_eq
  obtain ⟨pre, ⟨now, side, op⟩, out, after⟩ := c
  rw [ha]
  cases side with
  | original =>
    constructor
    · rw [opsOf_snoc, if_pos rfl, foldl_concat, ← hs.original]
      exact leafCache_of_next (s.1, s.2.1) now op
    · rw [opsOf_snoc]
      exact hs.restarted
  | restarted =>
    constructor
    · rw [opsOf_snoc]
      exact hs.original
    · rw [opsOf_snoc, if_pos rfl, foldl_concat, ← hs.restarted]
      exact leafCache_of_next (s.1, s.2.2) now op

end

/-- **The state root survives a restart.**  Calls `l₁` on a new challenge store, whose challenge the
storage knew nothing of; then a fresh store rebuilds its cache, and both get the same further calls,
in any order between the two.  The roots agree at the restart and after the further calls, if no
weights were stored before the restart, the listings are not cut off, and the later keys keep their
side of the renamed ones. -/
theorem state_root_survives_restart {sub ev wts : Type} {C : Crypto} {R : Records sub ev wts}
    {id : String} {s₀ : LocalStorage} {t : LocalStorage × ChallengeStore}
    {l₁ : List (StoreCall sub ev wts)} (hunused : Unused id s₀)
    (hrun : MachineRun (challengeNext C (localStore C) R) (s₀, .new id) l₁ t)
    (hbefore : ∀ c ∈ l₁, c.input.2.isWeights = false)
    (hsub : t.2.leafCache.submissions.size ≤ 10000)
    (hev : t.2.leafCache.evaluations.size ≤ 100000) (now : Int64) :
    ∃ st, (new id).rebuildCache C (localStore C) now t.1 = (.ok (), t.1, st) ∧
      st.computeStateRoot C = t.2.computeStateRoot C ∧
      ∀ (l₂ : List (PairCall sub ev wts)) (s : StorePair),
        MachineRun (pairNext C R) (t.1, t.2, st) l₂ s →
        opsOf .original l₂ = opsOf .restarted l₂ →
        (∀ c ∈ l₂, Aligned id t.2.leafCache c.input.2.2) →
        s.2.2.computeStateRoot C = s.2.1.computeStateRoot C := by
  obtain ⟨-, hsr⟩ := stored_of_run hunused hrun hbefore
  obtain ⟨subs, evs, hrb, hsb, hes⟩ := rebuildCache_eq hsr hsub hev now
  have hfl : Follows id t.2.leafCache t.2.leafCache ⟨subs, evs, ∅⟩ :=
    ⟨followsMap_rebuilt hsb, followsMap_rebuilt hes, hsr.noWeights.symm⟩
  refine ⟨_, hrb, computeStateRoot_congr hfl.allLeaves, ?_⟩
  intro l₂ s hrun₂ hs ha
  have hiv : PairInv C R t.2.leafCache ⟨subs, evs, ∅⟩ l₂ s := by
    refine Run.logInvariant ⟨rfl, rfl⟩ ?_ hrun₂
    intro l s₁ c s₂ _ hiv hstep
    exact hiv.step hstep
  apply computeStateRoot_congr
  rw [hiv.restarted, hiv.original, ← hs]
  refine (hfl.foldl ?_).allLeaves
  intro op hop
  obtain ⟨c, hc, hop⟩ := mem_filterMap.mp hop
  split at hop
  · exact Option.some_inj.mp hop ▸ ha c hc
  · cases hop

def restartSample : List (Int64 × StoreOp Bytes Bytes Bytes) :=
  [(0, .submission "x" [1]), (1, .evaluation "x" "v" [2]), (2, .submission "y" [3])]

def restartTrace := trace (challengeNext sampleCrypto (localStore sampleCrypto) plainRecords)
  (.inMemory "node", .new "c") restartSample

def furtherSample : List (Int64 × Side × StoreOp Bytes Bytes Bytes) :=
  [(4, .original, .submission "z" [4]), (5, .restarted, .submission "z" [4]),
    (6, .restarted, .weights 7 [5]), (7, .original, .weights 7 [5])]

def furtherTrace (st : ChallengeStore) := trace (pairNext sampleCrypto plainRecords)
  (restartTrace.2.1, restartTrace.2.2, st) furtherSample

theorem state_root_survives_restart_sample :
    ∃ st, (new "c").rebuildCache sampleCrypto (localStore sampleCrypto) 3
        restartTrace.2.1 = (.ok (), restartTrace.2.1, st) ∧
      st.computeStateRoot sampleCrypto = restartTrace.2.2.computeStateRoot sampleCrypto ∧
      (furtherTrace st).2.2.2.computeStateRoot sampleCrypto =
        (furtherTrace st).2.2.1.computeStateRoot sampleCrypto := by
  obtain ⟨st, hrb, hrt, hfr⟩ := @state_root_survives_restart _ _ _ sampleCrypto
    plainRecords "c" (.inMemory "node") restartTrace.2 restartTrace.1
    (unused_inMemory "c" "node") (machineRun_trace _ _ restartSample) (by decide +kernel)
    (by decide +kernel) (by decide +kernel) 3
  refine ⟨st, hrb, hrt, hfr (furtherTrace st).1 (furtherTrace st).2
    (machineRun_trace _ _ furtherSample) ?_ ?_⟩
  · rfl
  · have hos : ∀ a ∈ furtherSample, Aligned "c" restartTrace.2.2.leafCache a.2.2 := by
      decide +kernel
    intro c hc
    have hip : c.input ∈ furtherSample := by exact mem_map.mpr ⟨c, hc, rfl⟩
    exact hos c.input hip

/-- After a restart the weights are missing. -/
theorem restart_loses_weights :
    ¬ ∀ (C : Crypto) (R : Records Bytes Bytes Bytes) (id nodeId : String)
      (l : List (StoreCall Bytes Bytes Bytes)) (s : LocalStorage) (st : ChallengeStore)
      (now : Int64), ColonFree id →
      MachineRun (challengeNext C (localStore C) R) (.inMemory nodeId, .new id) l (s, st) →
      (∀ c ∈ l, c.out.isOk = true) →
      ((new id).rebuildCache C (localStore C) now s).2.2.computeStateRoot C =
        st.computeStateRoot C := by
  intro h
  let next := challengeNext sampleCrypto (localStore sampleCrypto) plainRecords
  let ops : List (Int64 × StoreOp Bytes Bytes Bytes) := [(0, .weights 1 [1])]
  have hrt := h sampleCrypto plainRecords "c" "node"
    (trace next (.inMemory "node", .new "c") ops).1
    (trace next (.inMemory "node", .new "c") ops).2.1
    (trace next (.inMemory "node", .new "c") ops).2.2 1 (by decide +kernel)
    (machineRun_trace next (.inMemory "node", .new "c") ops) (by decide +kernel)
  have hne : ((new "c").rebuildCache sampleCrypto (localStore sampleCrypto) 1
      (trace next (.inMemory "node", .new "c") ops).2.1).2.2.computeStateRoot sampleCrypto ≠
      (trace next (.inMemory "node", .new "c") ops).2.2.computeStateRoot sampleCrypto := by
    decide +kernel
  exact hne hrt

end Platform.Storage
