import Mathlib.Data.List.AList
import Mathlib.Data.Finset.Card

/-!
# Hash maps as association lists

A hash map is an association list without repeated keys (`AList`).  The order of its entries is
one of the orders in which the map may be iterated; an `Iteration` is any other.
-/

namespace Platform.Lib
open List

abbrev HashMap (κ υ : Type) := AList (fun _ : κ => υ)

namespace HashMap
variable {κ υ : Type}

/-- `len` -/
def size (m : HashMap κ υ) : Nat := m.entries.length

/-- `values().cloned().collect()` -/
def values (m : HashMap κ υ) : List υ := m.entries.map (fun p => p.2)

/-- `iter().map(|(k, v)| (k, g(v))).collect()` -/
def pairs {υ' : Type} (g : υ → υ') (m : HashMap κ υ) : List (κ × υ') :=
  m.entries.map (fun p => (p.1, g p.2))

@[simp] theorem length_keys (m : HashMap κ υ) : m.keys.length = m.size := by
  simp [AList.keys, keys, size]

@[simp] theorem length_pairs {υ' : Type} (g : υ → υ') (m : HashMap κ υ) :
    (m.pairs g).length = m.size := by
  simp [pairs, size]

variable {k : κ} {m : HashMap κ υ} {υ' : Type} {v : υ}

theorem pairs_fst (g : υ → υ') (m : HashMap κ υ) : (m.pairs g).map Prod.fst = m.keys := by
  simp [pairs, AList.keys, keys]

def mapValues {υ' : Type} (f : υ → υ') (m : HashMap κ υ) : HashMap κ υ' where
  entries := m.entries.map fun p => ⟨p.1, f p.2⟩
  nodupKeys := by
    have h := m.nodupKeys
    rw [List.NodupKeys, keys] at h ⊢
    rwa [map_map]

def retain (p : κ → υ → Bool) (m : HashMap κ υ) : HashMap κ υ where
  entries := m.entries.filter fun e => p e.1 e.2
  nodupKeys := m.nodupKeys.sublist filter_sublist

def inserted (m : HashMap κ υ) : List (κ × υ) := m.entries.reverse.map fun e => (e.1, e.2)

theorem nodup_inserted (m : HashMap κ υ) : (m.inserted.map Prod.fst).Nodup := by
  have h : m.inserted.map Prod.fst = m.keys.reverse := by simp [inserted, AList.keys, keys]
  rw [h]
  exact nodup_reverse.mpr m.keys_nodup

theorem eq_empty_of_size {m : HashMap κ υ} (h : m.size = 0) : m = ∅ :=
  AList.ext (eq_nil_of_length_eq_zero h)

variable [DecidableEq κ]

-- Mathlib's instance for `AList` rewrites along an equation of propositions and does not compute
instance [DecidableEq υ] : DecidableEq (HashMap κ υ) := fun _ _ =>
  decidable_of_iff _ AList.ext_iff.symm

theorem lookup_iff_mem (m : HashMap κ υ) (k : κ) (v : υ) :
    m.lookup k = some v ↔ (⟨k, v⟩ : Sigma fun _ : κ => υ) ∈ m.entries := AList.mem_lookup_iff

theorem mem_pairs (g : υ → υ') (m : HashMap κ υ) (k : κ) (w : υ') :
    (k, w) ∈ m.pairs g ↔ ∃ v, m.lookup k = some v ∧ g v = w := by
  simp only [pairs, mem_map, lookup_iff_mem]
  constructor
  · rintro ⟨⟨k', v⟩, hp, he⟩
    obtain ⟨rfl, rfl⟩ := Prod.mk.inj he
    exact ⟨v, hp, rfl⟩
  · rintro ⟨v, hp, rfl⟩
    exact ⟨⟨k, v⟩, hp, rfl⟩

theorem mem_values (m : HashMap κ υ) (v : υ) : v ∈ m.values ↔ ∃ k, m.lookup k = some v := by
  simp only [values, mem_map, lookup_iff_mem]
  constructor
  · rintro ⟨⟨k, v'⟩, hp, rfl⟩
    exact ⟨k, hp⟩
  · rintro ⟨k, hp⟩
    exact ⟨⟨k, v⟩, hp, rfl⟩

theorem mem_of_lookup (h : m.lookup k = some v) : k ∈ m := by
  rw [← AList.lookup_isSome, h]
  rfl

theorem lookup_insert_iff (m : HashMap κ υ) (k k' : κ) (v v' : υ) :
    (m.insert k v).lookup k' = some v' ↔ (k' = k ∧ v' = v) ∨ (k' ≠ k ∧ m.lookup k' = some v') := by
  by_cases h : k' = k
  · subst h
    simp [eq_comm]
  · simp [h]

theorem lookup_erase_iff (m : HashMap κ υ) (k k' : κ) (v : υ) :
    (m.erase k).lookup k' = some v ↔ k' ≠ k ∧ m.lookup k' = some v := by
  by_cases h : k' = k
  · subst h
    simp
  · simp [h]

theorem lookup_foldl_erase_iff (ks : List κ) (m : HashMap κ υ) (k : κ) (v : υ) :
    (ks.foldl (fun m k => m.erase k) m).lookup k = some v ↔ k ∉ ks ∧ m.lookup k = some v := by
  induction ks generalizing m with
  | nil => simp
  | cons k' ks ih =>
    rw [foldl_cons, ih, lookup_erase_iff, mem_cons, not_or, and_left_comm, and_assoc]

theorem lookup_mapValues (f : υ → υ') (m : HashMap κ υ) (k : κ) :
    (m.mapValues f).lookup k = (m.lookup k).map f := by
  ext w
  rw [Option.map_eq_some_iff]
  simp only [mapValues, mem_map, lookup_iff_mem]
  constructor
  · rintro ⟨⟨k', v⟩, hp, he⟩
    cases he
    exact ⟨v, hp, rfl⟩
  · rintro ⟨v, hp, rfl⟩
    exact ⟨⟨k, v⟩, hp, rfl⟩

theorem lookup_retain_iff (p : κ → υ → Bool) (m : HashMap κ υ) (k : κ) (v : υ) :
    (m.retain p).lookup k = some v ↔ m.lookup k = some v ∧ p k v = true := by
  rw [lookup_iff_mem, lookup_iff_mem]
  exact mem_filter

theorem getD_lookup_retain (p : υ → Bool) (d : υ) (hp : ∀ v, p v = false → v = d)
    (m : HashMap κ υ) (k : κ) :
    ((m.retain fun _ v => p v).lookup k).getD d = (m.lookup k).getD d := by
  cases hm : m.lookup k with
  | none =>
    have hn : (m.retain fun _ v => p v).lookup k = none := by
      rw [Option.eq_none_iff_forall_ne_some]
      intro v h
      rw [lookup_retain_iff, hm] at h
      cases h.1
    rw [hn]
  | some v =>
    cases hv : p v with
    | true => rw [(lookup_retain_iff _ _ _ _).mpr ⟨hm, hv⟩]
    | false =>
      have hn : (m.retain fun _ v => p v).lookup k = none := by
        rw [Option.eq_none_iff_forall_ne_some]
        intro v' h
        rw [lookup_retain_iff, hm, Option.some_inj] at h
        obtain ⟨rfl, hv'⟩ := h
        rw [hv] at hv'
        cases hv'
      rw [hn, hp v hv]
      rfl

theorem values_insert (m : HashMap κ υ) (k : κ) (v : υ) :
    values (m.insert k v) = v :: values (m.erase k) := rfl

theorem erase_of_lookup_none (h : m.lookup k = none) : m.erase k = m :=
  AList.ext (kerase_of_notMem_keys (AList.lookup_eq_none.mp h))

theorem values_perm_erase (h : m.lookup k = some v) :
    (values m).Perm (v :: values (m.erase k)) := by
  obtain ⟨v', l₁, l₂, -, hm, her⟩ := exists_of_kerase (mem_of_lookup h)
  have hv : v = v' := by
    have hmm : (⟨k, v'⟩ : Sigma fun _ : κ => υ) ∈ m.entries := by
      rw [hm]
      exact mem_append_right _ mem_cons_self
    exact Option.some_inj.mp (h.symm.trans ((lookup_iff_mem m k v').mpr hmm))
  subst hv
  show (m.entries.map _).Perm (v :: (kerase k m.entries).map _)
  rw [her, hm, map_append, map_append]
  exact perm_middle

theorem flatten_values_push {α : Type} (m : HashMap κ (List α)) (k : κ) (x : α) :
    (values (m.insert k ((m.lookup k).getD [] ++ [x]))).flatten.Perm (x :: (values m).flatten) := by
  rw [values_insert, flatten_cons, append_assoc]
  cases h : m.lookup k with
  | none =>
    rw [erase_of_lookup_none h]
    exact List.Perm.refl _
  | some l =>
    have hpr := (values_perm_erase h).flatten
    exact perm_middle.trans (hpr.symm.cons x)

def keySet (m : HashMap κ υ) : Finset κ := m.keys.toFinset

@[simp] theorem mem_keySet (m : HashMap κ υ) (k : κ) : k ∈ m.keySet ↔ k ∈ m := by
  rw [keySet, mem_toFinset, AList.mem_keys]

@[simp] theorem card_keySet (m : HashMap κ υ) : m.keySet.card = m.size := by
  rw [keySet, toFinset_card_of_nodup m.keys_nodup, length_keys]

theorem keySet_mapValues (f : υ → υ') (m : HashMap κ υ) : keySet (m.mapValues f) = m.keySet := by
  have hk : (m.mapValues f).keys = m.keys := map_map
  rw [keySet, keySet, hk]

theorem keySet_insert (m : HashMap κ υ) (k : κ) (v : υ) :
    keySet (m.insert k v) = insert k m.keySet := by
  ext x
  simp

theorem keySet_erase (m : HashMap κ υ) (k : κ) : keySet (m.erase k) = m.keySet.erase k := by
  ext x
  rw [mem_keySet, Finset.mem_erase, mem_keySet, AList.mem_erase]

theorem size_insert_of_mem (h : k ∈ m) (v : υ) : size (m.insert k v) = m.size := by
  rw [← card_keySet, ← card_keySet, keySet_insert, Finset.insert_eq_of_mem ((mem_keySet m k).mpr h)]

theorem size_insert_of_notMem (h : k ∉ m) (v : υ) : size (m.insert k v) = m.size + 1 := by
  have hse : k ∉ m.keySet := fun hm => h ((mem_keySet m k).mp hm)
  rw [← card_keySet, ← card_keySet, keySet_insert, Finset.card_insert_of_notMem hse]

theorem size_erase_of_mem (h : k ∈ m) : size (m.erase k) + 1 = m.size := by
  have hse : keySet (m.erase k) = m.keySet.erase k := by
    ext x
    simp
  rw [← card_keySet, ← card_keySet, hse, Finset.card_erase_add_one ((mem_keySet m k).mpr h)]

theorem size_erase_le (m : HashMap κ υ) (k : κ) : size (m.erase k) ≤ m.size := by
  by_cases h : k ∈ m
  · have hsz := size_erase_of_mem h
    omega
  · rw [erase_of_lookup_none (AList.lookup_eq_none.mpr h)]

def collect (l : List (κ × υ)) : HashMap κ υ := l.foldl (fun m p => m.insert p.1 p.2) ∅

theorem entries_foldl_insert (l : List (κ × υ)) (m : HashMap κ υ)
    (hnd : (l.map Prod.fst).Nodup) (hn : ∀ p ∈ l, p.1 ∉ m) :
    (l.foldl (fun m p => m.insert p.1 p.2) m).entries =
      (l.reverse.map fun p => (⟨p.1, p.2⟩ : Sigma fun _ : κ => υ)) ++ m.entries := by
  induction l generalizing m with
  | nil => rfl
  | cons p l ih =>
    rw [map_cons, nodup_cons] at hnd
    have hp : p.1 ∉ m := hn p mem_cons_self
    rw [foldl_cons, ih _ hnd.2, AList.entries_insert_of_notMem hp]
    · simp
    · intro q hq hm
      rcases (AList.mem_insert _).mp hm with heq | hm
      · exact hnd.1 (heq ▸ mem_map_of_mem hq)
      · exact hn q (mem_cons_of_mem _ hq) hm

theorem collect_eq_iff (l : List (κ × υ)) (m : HashMap κ υ)
    (hnd : (l.map Prod.fst).Nodup) : collect l = m ↔ l = m.inserted := by
  have hen : (collect l).entries = l.reverse.map fun p => ⟨p.1, p.2⟩ := by
    have h := entries_foldl_insert l ∅ hnd fun p _ => AList.notMem_empty _
    simpa [collect] using h
  rw [AList.ext_iff, hen]
  constructor
  · intro h
    rw [inserted, ← h]
    simp [Function.comp_def]
  · rintro rfl
    simp [inserted, Function.comp_def]

theorem mem_of_lookup_collect {l : List (κ × υ)}
    (h : (collect l).lookup k = some v) : (k, v) ∈ l := by
  have hfl : ∀ (l : List (κ × υ)) (m : HashMap κ υ),
      (l.foldl (fun m p => m.insert p.1 p.2) m).lookup k = some v →
        (k, v) ∈ l ∨ m.lookup k = some v := by
    intro l
    induction l with
    | nil => exact fun m h => .inr h
    | cons p l ih =>
      intro m h
      rcases ih _ h with hmem | hlk
      · exact .inl (mem_cons_of_mem p hmem)
      · rcases (lookup_insert_iff m p.1 k p.2 v).mp hlk with ⟨rfl, rfl⟩ | ⟨-, ho⟩
        · exact .inl mem_cons_self
        · exact .inr ho
  rcases hfl l ∅ h with hmem | hnone
  · exact hmem
  · cases hnone

theorem mem_inserted (m : HashMap κ υ) (x : κ) (v : υ) :
    (x, v) ∈ m.inserted ↔ m.lookup x = some v := by
  rw [lookup_iff_mem, inserted, mem_map]
  constructor
  · rintro ⟨⟨x', v'⟩, he, heq⟩
    cases heq
    exact mem_reverse.mp he
  · intro he
    exact ⟨⟨x, v⟩, mem_reverse.mpr he, rfl⟩

end HashMap

namespace HashMap
variable {κ υ : Type} [DecidableEq κ] {m : HashMap κ υ} {key : υ → κ} {xs : List υ} {x : υ} {k : κ}

structure Records (key : υ → κ) (m : HashMap κ υ) (xs : List υ) : Prop where
  lookup_iff : ∀ k x, m.lookup k = some x ↔ x ∈ xs ∧ key x = k
  nodup : (xs.map key).Nodup

theorem records_empty (key : υ → κ) : Records key (∅ : HashMap κ υ) [] :=
  ⟨fun k x => by simp, nodup_nil⟩

theorem Records.mem_iff (h : Records key m xs) : k ∈ m ↔ k ∈ xs.map key := by
  rw [← AList.lookup_isSome, Option.isSome_iff_exists, mem_map]
  exact exists_congr fun x => h.lookup_iff k x

theorem Records.insert (h : Records key m xs) (hn : key x ∉ m) :
    Records key (m.insert (key x) x) (xs ++ [x]) := by
  have hky : key x ∉ xs.map key := fun hm => hn (h.mem_iff.mpr hm)
  constructor
  · intro k y
    rw [lookup_insert_iff, h.lookup_iff k y, mem_append, mem_singleton]
    constructor
    · rintro (⟨rfl, rfl⟩ | ⟨-, hy, hk⟩)
      · exact ⟨.inr rfl, rfl⟩
      · exact ⟨.inl hy, hk⟩
    · rintro ⟨hy | rfl, hk⟩
      · refine .inr ⟨fun heq => hky ?_, hy, hk⟩
        rw [← heq, ← hk]
        exact mem_map_of_mem hy
      · exact .inl ⟨hk.symm, rfl⟩
  · rw [map_append, nodup_append]
    refine ⟨h.nodup, nodup_singleton _, fun a ha b hb => ?_⟩
    rw [mem_singleton.mp hb]
    exact fun heq => hky (heq ▸ ha)

end HashMap

/-- An order of iteration: it visits every key of a map once. -/
structure Iteration (κ : Type) where
  order : List κ → List κ
  perm : ∀ l, (order l).Perm l

/-- the entries in the order in which they stand -/
def Iteration.asListed {κ : Type} : Iteration κ := ⟨id, fun l => .refl l⟩

def Iteration.leading {κ : Type} [DecidableEq κ] (k : κ) : Iteration κ where
  order l := if k ∈ l then k :: l.erase k else l
  perm l := by
    split
    case isTrue h => exact (perm_cons_erase h).symm
    case isFalse => exact .refl l

def Iteration.trailing {κ : Type} [DecidableEq κ] (k : κ) : Iteration κ where
  order l := if k ∈ l then l.erase k ++ [k] else l
  perm l := by
    split
    case isTrue h => exact (perm_append_singleton k _).trans (perm_cons_erase h).symm
    case isFalse => exact .refl l

namespace HashMap
variable {κ υ : Type} {it : Iteration κ} {m : HashMap κ υ} {k : κ} {v : υ}

/-- `keys().cloned().collect()` -/
def keysBy (it : Iteration κ) (m : HashMap κ υ) : List κ := it.order m.keys

theorem mem_keysBy : k ∈ m.keysBy it ↔ k ∈ m := (it.perm m.keys).mem_iff

theorem nodup_keysBy : (m.keysBy it).Nodup := (it.perm m.keys).nodup_iff.mpr m.keys_nodup

theorem length_keysBy : (m.keysBy it).length = m.size := by
  rw [keysBy, (it.perm m.keys).length_eq, length_keys]

variable [DecidableEq κ]

/-- `for (k, v) in m` -/
def pairsBy (it : Iteration κ) (m : HashMap κ υ) : List (κ × υ) :=
  (m.keysBy it).filterMap fun k => (m.lookup k).map fun v => (k, v)

theorem mem_pairsBy : (k, v) ∈ m.pairsBy it ↔ m.lookup k = some v := by
  rw [pairsBy, mem_filterMap]
  constructor
  · intro h
    obtain ⟨k', -, hk'⟩ := h
    obtain ⟨v', hv', heq⟩ := Option.map_eq_some_iff.mp hk'
    cases heq
    exact hv'
  · intro h
    exact ⟨k, mem_keysBy.mpr (mem_of_lookup h), by rw [h]; rfl⟩

theorem map_fst_pairsBy : (m.pairsBy it).map Prod.fst = m.keysBy it := by
  have h : ∀ l : List κ, (∀ k ∈ l, k ∈ m) →
      (l.filterMap fun k => (m.lookup k).map fun v => (k, v)).map Prod.fst = l := by
    intro l
    induction l with
    | nil => simp
    | cons k l ih =>
      intro hl
      obtain ⟨v, hv⟩ := Option.isSome_iff_exists.mp (AList.lookup_isSome.mpr (hl k mem_cons_self))
      rw [filterMap_cons_some (by rw [hv]; rfl), map_cons,
        ih fun k' hk' => hl k' (mem_cons_of_mem k hk')]
  exact h _ fun k hk => mem_keysBy.mp hk

theorem pairsBy_leading (h : m.lookup k = some v) :
    ∃ rest, m.pairsBy (.leading k) = (k, v) :: rest := by
  have hk : k ∈ m.keys := AList.mem_keys.mp (mem_of_lookup h)
  have hor : m.keysBy (.leading k) = k :: m.keys.erase k := if_pos hk
  rw [pairsBy, hor, filterMap_cons_some (by rw [h]; rfl)]
  exact ⟨_, rfl⟩

theorem pairsBy_trailing (h : m.lookup k = some v) :
    ∃ front, m.pairsBy (.trailing k) = front ++ [(k, v)] := by
  have hk : k ∈ m.keys := AList.mem_keys.mp (mem_of_lookup h)
  have hor : m.keysBy (.trailing k) = m.keys.erase k ++ [k] := if_pos hk
  rw [pairsBy, hor, filterMap_append, filterMap_cons_some (by rw [h]; rfl)]
  exact ⟨_, rfl⟩

theorem pairsBy_perm (it it' : Iteration κ) : (m.pairsBy it).Perm (m.pairsBy it') := by
  apply List.Perm.filterMap
  exact (it.perm _).trans (it'.perm _).symm

theorem nodup_pairsBy (it : Iteration κ) : ((m.pairsBy it).map Prod.fst).Nodup := by
  rw [map_fst_pairsBy]
  exact nodup_keysBy

/-- `values().cloned().collect()` -/
def valuesBy (it : Iteration κ) (m : HashMap κ υ) : List υ := (m.keysBy it).filterMap m.lookup

theorem length_valuesBy : (m.valuesBy it).length = m.size := by
  rw [valuesBy, ← @length_keysBy κ υ it m, filterMap_length_eq_length]
  intro k hk
  exact AList.lookup_isSome.mpr (mem_keysBy.mp hk)

/-- The first key of an iteration is none of the others. -/
theorem valuesBy_eq_cons {rest : List υ} (h : m.valuesBy it = v :: rest) :
    ∃ k, m.lookup k = some v ∧ ∀ v' ∈ rest, ∃ k' ≠ k, m.lookup k' = some v' := by
  have hn : (m.keysBy it).Nodup := nodup_keysBy
  have hmem : ∀ k ∈ m.keysBy it, (m.lookup k).isSome = true :=
    fun k hk => AList.lookup_isSome.mpr (mem_keysBy.mp hk)
  rw [valuesBy] at h
  generalize m.keysBy it = ks at h hn hmem
  cases ks with
  | nil => cases h
  | cons k ks =>
    obtain ⟨v₀, hv₀⟩ := Option.isSome_iff_exists.mp (hmem k mem_cons_self)
    simp only [filterMap_cons, hv₀] at h
    cases h
    refine ⟨k, hv₀, fun v' hv' => ?_⟩
    obtain ⟨k', hk', hl⟩ := mem_filterMap.mp hv'
    exact ⟨k', fun heq => (nodup_cons.mp hn).1 (heq ▸ hk'), hl⟩

theorem exists_valuesBy_pair {k' : κ} {v' : υ} (hne : k ≠ k') (h : m.lookup k = some v)
    (h' : m.lookup k' = some v') : ∃ it rest, m.valuesBy it = v :: v' :: rest := by
  have hk : k ∈ m.keys := AList.mem_keys.mp (mem_of_lookup h)
  have hk' : k' ∈ m.keys := AList.mem_keys.mp (mem_of_lookup h')
  have hin : k ∈ k' :: m.keys.erase k' := mem_cons_of_mem k' ((mem_erase_of_ne hne).mpr hk)
  refine ⟨⟨fun l => (Iteration.leading k).order ((Iteration.leading k').order l), fun l =>
    ((Iteration.leading k).perm _).trans ((Iteration.leading k').perm l)⟩,
    ((m.keys.erase k').erase k).filterMap m.lookup, ?_⟩
  rw [valuesBy, keysBy]
  dsimp only [Iteration.leading]
  rw [if_pos hk', if_pos hin, erase_cons_tail (by simpa using hne.symm)]
  simp only [filterMap_cons, h, h']

end HashMap

end Platform.Lib
