import Mathlib.Data.List.Lex
import Mathlib.Order.Cover

/-!
# Ordered maps

A map with ordered keys (`BTreeMap`, a tree of `sled`) is the list of its entries, strictly
increasing in the key.

* `OrdMap.get_insert`, `OrdMap.get_erase`   what an update does to a lookup;
* `OrdMap.insertList_split`                 an insertion changes one place of the list;
* `OrdMap.ext_get`                          two maps with the same lookups are equal;
* `OrdMap.count_insert`, `OrdMap.count_erase`   how many keys of a kind there are after it;
* `OrdMap.scan_eq_filter`                   a scan that starts at a lower bound of a block of keys
                                            and stops where the block ends sees the whole block;
* `OrdMap.Renames.insert`                   a renaming that keeps the order commutes with insertion;
* `block_isPrefix`, `raised_le_iff`         lists as keys: the extensions of a list are a block, and
                                            what a start key with its last item raised passes over.
-/

namespace Platform.Lib
open List

structure OrdMap (κ υ : Type) [LinearOrder κ] where
  entries : List (κ × υ)
  sorted : entries.Pairwise fun a b => a.1 < b.1

namespace OrdMap
variable {κ υ : Type} [LinearOrder κ]

instance [DecidableEq υ] : DecidableEq (OrdMap κ υ) := fun m m' =>
  decidable_of_iff (m.entries = m'.entries) (by
    cases m
    cases m'
    simp)

def empty : OrdMap κ υ := ⟨[], List.Pairwise.nil⟩

instance : EmptyCollection (OrdMap κ υ) := ⟨empty⟩

def keys (m : OrdMap κ υ) : List κ := m.entries.map Prod.fst

def values (m : OrdMap κ υ) : List υ := m.entries.map Prod.snd

/-- `len` -/
def size (m : OrdMap κ υ) : Nat := m.entries.length

/-! ## lookups -/

def getList (k : κ) : List (κ × υ) → Option υ
  | [] => none
  | (k', v) :: l => if k' = k then some v else getList k l

def get (m : OrdMap κ υ) (k : κ) : Option υ := getList k m.entries

@[simp] theorem get_empty (k : κ) : (∅ : OrdMap κ υ).get k = none := rfl

variable {k k' : κ} {m m' : OrdMap κ υ} {l : List (κ × υ)} {v : υ} {p : κ → Bool}

theorem getList_eq_none (h : ∀ e ∈ l, e.1 ≠ k) : getList k l = none := by
  induction l with
  | nil => rfl
  | cons e l ih =>
    rw [getList, if_neg (h e mem_cons_self)]
    exact ih fun e' he' => h e' (mem_cons_of_mem e he')

theorem getList_eq_some (hl : l.Pairwise fun a b => a.1 < b.1) :
    getList k l = some v ↔ (k, v) ∈ l := by
  induction l with
  | nil => simp [getList]
  | cons e l ih =>
    obtain ⟨k', v'⟩ := e
    rw [pairwise_cons] at hl
    rw [getList, mem_cons, Prod.mk.injEq]
    by_cases hk : k' = k
    · subst hk
      rw [if_pos rfl, Option.some_inj]
      constructor
      · rintro rfl
        exact .inl ⟨rfl, rfl⟩
      · rintro (⟨-, rfl⟩ | hmem)
        · rfl
        · exact absurd (hl.1 _ hmem) (lt_irrefl k')
    · rw [if_neg hk, ih hl.2]
      constructor
      · exact .inr
      · rintro (⟨rfl, -⟩ | hmem)
        · exact absurd rfl hk
        · exact hmem

theorem get_eq_some : m.get k = some v ↔ (k, v) ∈ m.entries := getList_eq_some m.sorted

theorem ext_get (h : ∀ k, m.get k = m'.get k) : m = m' := by
  have hm : ∀ e, e ∈ m.entries ↔ e ∈ m'.entries := by
    rintro ⟨k, v⟩
    rw [← get_eq_some, ← get_eq_some, h]
  have hnd : ∀ m : OrdMap κ υ, m.entries.Nodup := fun m =>
    m.sorted.imp fun hlt heq => absurd (congrArg Prod.fst heq) hlt.ne
  have hpr : m.entries.Perm m'.entries := (perm_ext_iff_of_nodup (hnd m) (hnd m')).mpr hm
  have hen : m.entries = m'.entries :=
    hpr.eq_of_pairwise (fun a b _ _ hab hba => absurd hba hab.asymm) m.sorted m'.sorted
  cases m
  cases m'
  cases hen
  rfl

theorem filter_congr_get (h : ∀ k, p k = true → m.get k = m'.get k) :
    (m.entries.filter fun e => p e.1) = m'.entries.filter fun e => p e.1 := by
  have hm : (⟨m.entries.filter fun e => p e.1, m.sorted.filter _⟩ : OrdMap κ υ) =
      ⟨m'.entries.filter fun e => p e.1, m'.sorted.filter _⟩ := by
    apply ext_get
    intro k
    apply Option.ext
    intro v
    rw [get_eq_some, get_eq_some, mem_filter, mem_filter, ← get_eq_some, ← get_eq_some]
    constructor
    · rintro ⟨hg, hp⟩
      exact ⟨h k hp ▸ hg, hp⟩
    · rintro ⟨hg, hp⟩
      exact ⟨h k hp ▸ hg, hp⟩
  exact congrArg entries hm

theorem keys_sorted (m : OrdMap κ υ) : m.keys.Pairwise (· < ·) := pairwise_map.mpr m.sorted

theorem keys_nodup (m : OrdMap κ υ) : m.keys.Nodup := m.keys_sorted.imp fun h => h.ne

theorem values_of_keys {i : Nat} (h : m.keys[i]? = some k) : m.values[i]? = m.get k := by
  rw [keys, getElem?_map] at h
  obtain ⟨⟨k', v⟩, he, rfl⟩ := Option.map_eq_some_iff.mp h
  rw [values, getElem?_map, he]
  exact (get_eq_some.mpr (mem_of_getElem? he)).symm

theorem mem_keys : k ∈ m.keys ↔ (m.get k).isSome = true := by
  rw [Option.isSome_iff_exists, keys, mem_map]
  constructor
  · rintro ⟨⟨k', v⟩, he, rfl⟩
    exact ⟨v, get_eq_some.mpr he⟩
  · rintro ⟨v, hv⟩
    exact ⟨(k, v), get_eq_some.mp hv, rfl⟩

theorem keys_eq_of_isSome {υ' : Type} {m' : OrdMap κ υ'}
    (h : ∀ k, (m.get k).isSome = (m'.get k).isSome) : m.keys = m'.keys := by
  have hpr : m.keys.Perm m'.keys := by
    rw [perm_ext_iff_of_nodup m.keys_nodup m'.keys_nodup]
    intro k
    rw [mem_keys, mem_keys, h k]
  exact hpr.eq_of_pairwise (fun a b _ _ hab hba => absurd (hab.trans hba) (lt_irrefl a))
    m.keys_sorted m'.keys_sorted

theorem eq_of_keys_values (hk : m.keys = m'.keys) (hvl : m.values = m'.values) : m = m' := by
  have hen : m.entries = m'.entries := by
    rw [← zip_unzip m.entries, ← zip_unzip m'.entries, unzip_fst, unzip_snd, unzip_fst, unzip_snd]
    exact congrArg₂ zip hk hvl
  exact ext_get fun k => congrArg (getList k) hen

/-! ## updates -/

def insertList (k : κ) (v : υ) : List (κ × υ) → List (κ × υ)
  | [] => [(k, v)]
  | e :: l =>
    if k < e.1 then (k, v) :: e :: l
    else if k = e.1 then (k, v) :: l
    else e :: insertList k v l

theorem mem_insertList {e : κ × υ} (h : e ∈ insertList k v l) : e = (k, v) ∨ e ∈ l := by
  induction l with
  | nil => exact .inl (mem_singleton.mp h)
  | cons a l ih =>
    rw [insertList] at h
    split at h
    · exact mem_cons.mp h
    split at h
    · rcases mem_cons.mp h with h | h
      · exact .inl h
      · exact .inr (mem_cons_of_mem a h)
    · rcases mem_cons.mp h with rfl | h
      · exact .inr mem_cons_self
      · exact (ih h).imp_right (mem_cons_of_mem a)

theorem sorted_insertList (hl : l.Pairwise fun a b => a.1 < b.1) :
    (insertList k v l).Pairwise fun a b => a.1 < b.1 := by
  induction l with
  | nil => exact pairwise_singleton _ _
  | cons e l ih =>
    have he := pairwise_cons.mp hl
    rw [insertList]
    split
    · next hlt =>
      refine pairwise_cons.mpr ⟨fun a ha => ?_, hl⟩
      rcases mem_cons.mp ha with rfl | ha
      · exact hlt
      · exact lt_trans hlt (he.1 a ha)
    split
    · next heq => exact pairwise_cons.mpr ⟨fun a ha => heq ▸ he.1 a ha, he.2⟩
    · next hlt hne =>
      refine pairwise_cons.mpr ⟨fun a ha => ?_, ih he.2⟩
      rcases mem_insertList ha with rfl | ha
      · exact lt_of_le_of_ne (not_lt.mp hlt) (Ne.symm hne)
      · exact he.1 a ha

def insert (m : OrdMap κ υ) (k : κ) (v : υ) : OrdMap κ υ :=
  ⟨insertList k v m.entries, sorted_insertList m.sorted⟩

/-- `remove` -/
def erase (m : OrdMap κ υ) (k : κ) : OrdMap κ υ :=
  ⟨m.entries.filter fun e => e.1 ≠ k, m.sorted.filter _⟩

theorem getList_insertList (k k' : κ) (v : υ) (l : List (κ × υ)) :
    getList k' (insertList k v l) = if k' = k then some v else getList k' l := by
  induction l with
  | nil =>
    show (if k = k' then some v else none) = if k' = k then some v else none
    by_cases h : k = k'
    · rw [if_pos h, if_pos h.symm]
    · rw [if_neg h, if_neg (Ne.symm h)]
  | cons e l ih =>
    obtain ⟨k'', v''⟩ := e
    rw [insertList]
    split
    · rw [getList]
      by_cases h : k = k'
      · rw [if_pos h, if_pos h.symm]
      · rw [if_neg h, if_neg (Ne.symm h)]
    split
    · next heq =>
      obtain rfl : k = k'' := heq
      rw [getList, getList]
      by_cases h : k = k'
      · rw [if_pos h, if_pos h.symm]
      · rw [if_neg h, if_neg (Ne.symm h), if_neg h]
    · next hne =>
      rw [getList, getList, ih]
      by_cases h : k'' = k'
      · subst h
        rw [if_pos rfl, if_pos rfl, if_neg (Ne.symm hne)]
      · rw [if_neg h, if_neg h]

theorem get_insert (m : OrdMap κ υ) (k k' : κ) (v : υ) :
    (m.insert k v).get k' = if k' = k then some v else m.get k' :=
  getList_insertList k k' v m.entries

@[simp] theorem get_insert_self (m : OrdMap κ υ) (k : κ) (v : υ) :
    (m.insert k v).get k = some v := by
  rw [get_insert, if_pos rfl]

theorem get_insert_of_ne (m : OrdMap κ υ) (h : k' ≠ k) (v : υ) :
    (m.insert k v).get k' = m.get k' := by
  rw [get_insert, if_neg h]

theorem get_erase (m : OrdMap κ υ) (k k' : κ) :
    (m.erase k).get k' = if k' = k then none else m.get k' := by
  by_cases h : k' = k
  · rw [if_pos h]
    refine getList_eq_none fun e he => ?_
    have hne := of_mem_filter he
    rw [h]
    exact of_decide_eq_true hne
  · rw [if_neg h]
    ext v
    rw [get_eq_some, get_eq_some]
    show (k', v) ∈ m.entries.filter _ ↔ _
    simp [h]

@[simp] theorem get_erase_self (m : OrdMap κ υ) (k : κ) : (m.erase k).get k = none := by
  rw [get_erase, if_pos rfl]

theorem get_erase_of_ne (m : OrdMap κ υ) (h : k' ≠ k) : (m.erase k).get k' = m.get k' := by
  rw [get_erase, if_neg h]

theorem erase_of_get_none (h : m.get k = none) : m.erase k = m := by
  refine ext_get fun k' => ?_
  rw [get_erase]
  by_cases hk : k' = k
  · rw [if_pos hk, hk, h]
  · rw [if_neg hk]

theorem insertList_split (k : κ) (hl : l.Pairwise fun a b => a.1 < b.1) :
    ∃ l₁ l₂, (∀ v, insertList k v l = l₁ ++ (k, v) :: l₂) ∧
      l = l₁ ++ (((getList k l).map fun v => (k, v)).toList ++ l₂) := by
  induction l with
  | nil => exact ⟨[], [], fun v => rfl, rfl⟩
  | cons e l ih =>
    have he := pairwise_cons.mp hl
    by_cases hlt : k < e.1
    · have hn : getList k (e :: l) = none := by
        apply getList_eq_none
        intro a ha
        rcases mem_cons.mp ha with rfl | ha
        · exact hlt.ne'
        · exact (hlt.trans (he.1 a ha)).ne'
      refine ⟨[], e :: l, fun v => ?_, ?_⟩
      · rw [insertList, if_pos hlt, nil_append]
      · rw [hn]
        rfl
    · by_cases heq : k = e.1
      · refine ⟨[], l, fun v => ?_, ?_⟩
        · rw [insertList, if_neg hlt, if_pos heq, nil_append]
        · rw [getList, if_pos heq.symm, heq]
          rfl
      · obtain ⟨l₁, l₂, his, hl'⟩ := ih he.2
        refine ⟨e :: l₁, l₂, fun v => ?_, ?_⟩
        · rw [insertList, if_neg hlt, if_neg heq, his v, cons_append]
        · rw [getList, if_neg (Ne.symm heq)]
          exact congrArg (e :: ·) hl'

theorem get_foldl_erase (ks : List κ) (m : OrdMap κ υ) (k : κ) :
    (ks.foldl erase m).get k = if k ∈ ks then none else m.get k := by
  induction ks generalizing m with
  | nil => simp
  | cons k' ks ih =>
    rw [foldl_cons, ih, get_erase]
    by_cases hk : k = k'
    · simp [hk]
    · simp [hk]

theorem get_of_foldl_erase {ks : List κ}
    (h : (ks.foldl erase m).get k = some v) : m.get k = some v := by
  rw [get_foldl_erase] at h
  split at h
  · cases h
  · exact h

/-! ## how many keys of a kind -/

def count (p : κ → Bool) (m : OrdMap κ υ) : Nat := (m.entries.filter fun e => p e.1).length

theorem count_insertList (p : κ → Bool) (k : κ) (v : υ) (hl : l.Pairwise fun a b => a.1 < b.1) :
    ((insertList k v l).filter fun e => p e.1).length =
      (l.filter fun e => p e.1).length + if p k = true ∧ getList k l = none then 1 else 0 := by
  induction l with
  | nil => cases hp : p k <;> simp [insertList, getList, hp]
  | cons e l ih =>
    obtain ⟨k', v'⟩ := e
    have he := pairwise_cons.mp hl
    rw [insertList]
    split
    · next hlt =>
      -- the new key is below all others, so it is not among them
      have hn : getList k ((k', v') :: l) = none := by
        refine getList_eq_none fun a ha => ?_
        rcases mem_cons.mp ha with rfl | ha
        · exact hlt.ne'
        · exact (lt_trans hlt (he.1 a ha)).ne'
      rw [hn]
      cases hp : p k <;> simp [hp]
    split
    · next heq =>
      obtain rfl : k = k' := heq
      cases hp : p k <;> simp [hp, getList]
    · next hne =>
      have hg : getList k ((k', v') :: l) = getList k l := by
        rw [getList, if_neg (Ne.symm hne)]
      rw [hg]
      have hih := ih he.2
      cases hp : p k' with
      | false =>
        rw [filter_cons_of_neg (by simp [hp]), filter_cons_of_neg (by simp [hp])]
        exact hih
      | true =>
        rw [filter_cons_of_pos (by simp [hp]), filter_cons_of_pos (by simp [hp]),
          length_cons, length_cons]
        omega

theorem count_insert (p : κ → Bool) (m : OrdMap κ υ) (k : κ) (v : υ) :
    (m.insert k v).count p = m.count p + if p k = true ∧ m.get k = none then 1 else 0 :=
  count_insertList p k v m.sorted

theorem insert_erase (h : m.get k = some v) : (m.erase k).insert k v = m := by
  refine ext_get fun k' => ?_
  rw [get_insert, get_erase]
  by_cases hk : k' = k
  · rw [if_pos hk, hk, h]
  · rw [if_neg hk, if_neg hk]

theorem count_erase (p : κ → Bool) (m : OrdMap κ υ) (k : κ) :
    (m.erase k).count p + (if p k = true ∧ m.get k ≠ none then 1 else 0) = m.count p := by
  cases h : m.get k with
  | none => simp [erase_of_get_none h]
  | some v =>
    conv_rhs => rw [← insert_erase h, count_insert]
    simp

/-! ## scans -/

def rangeFrom (m : OrdMap κ υ) (start : κ) : List (κ × υ) :=
  m.entries.filter fun e => start ≤ e.1

/-- A block of keys: once a key from its lower bound `start` on is outside, all later ones are. -/
def Block (start : κ) (p : κ → Bool) : Prop :=
  ∀ a b, start ≤ a → a < b → p a = false → p b = false

theorem takeWhile_eq_filter {start : κ} (hp : Block start p) (hl : l.Pairwise fun a b => a.1 < b.1)
    (hsr : ∀ e ∈ l, start ≤ e.1) :
    l.takeWhile (fun e => p e.1) = l.filter fun e => p e.1 := by
  induction l with
  | nil => rfl
  | cons e l ih =>
    have he := pairwise_cons.mp hl
    cases h : p e.1 with
    | true =>
      rw [takeWhile_cons_of_pos (by simp [h]), filter_cons_of_pos (by simp [h]),
        ih he.2 fun a ha => hsr a (mem_cons_of_mem e ha)]
    | false =>
      have hr : l.filter (fun e => p e.1) = [] := by
        rw [filter_eq_nil_iff]
        intro a ha
        rw [hp e.1 a.1 (hsr e mem_cons_self) (he.1 a ha) h]
        decide
      rw [takeWhile_cons_of_neg (by simp [h]), filter_cons_of_neg (by simp [h]), hr]

theorem scan_eq_filter (m : OrdMap κ υ) {start : κ} (hp : Block start p) :
    (m.rangeFrom start).takeWhile (fun e => p e.1) =
      m.entries.filter fun e => decide (start ≤ e.1) && p e.1 := by
  have hsr : ∀ e ∈ m.rangeFrom start, start ≤ e.1 := by
    intro e he
    rw [rangeFrom, mem_filter] at he
    exact of_decide_eq_true he.2
  have hs : (m.rangeFrom start).Pairwise fun a b => a.1 < b.1 := m.sorted.filter _
  rw [takeWhile_eq_filter hp hs hsr, rangeFrom, filter_filter]
  apply filter_congr
  intro e _
  exact Bool.and_comm _ _

theorem filter_le_suffix (c : κ) (hl : l.Pairwise fun a b => a.1 < b.1) :
    (l.filter fun e => decide (c ≤ e.1)) <:+ l := by
  induction l with
  | nil => exact suffix_refl []
  | cons e l ih =>
    have he := pairwise_cons.mp hl
    by_cases hc : c ≤ e.1
    · have hal : (e :: l).filter (fun e => decide (c ≤ e.1)) = e :: l := by
        rw [filter_eq_self]
        intro a ha
        rcases mem_cons.mp ha with rfl | ha
        · exact decide_eq_true hc
        · exact decide_eq_true (le_trans hc (he.1 a ha).le)
      exact ⟨[], hal⟩
    · rw [filter_cons_of_neg (by rw [decide_eq_true_eq]; exact hc)]
      exact (ih he.2).trans (suffix_cons e l)

theorem filter_le_append_cons {l₁ l₂ : List (κ × υ)} {x : κ × υ} {c : κ} (hx : x.1 ≤ c)
    (hl : (l₁ ++ x :: l₂).Pairwise fun a b => a.1 < b.1) :
    (l₁ ++ x :: l₂).filter (fun e => decide (c ≤ e.1)) =
      (x :: l₂).filter fun e => decide (c ≤ e.1) := by
  have hn : l₁.filter (fun e => decide (c ≤ e.1)) = [] := by
    rw [filter_eq_nil_iff]
    intro e he
    rw [decide_eq_true_eq]
    exact not_le.mpr (lt_of_lt_of_le ((pairwise_append.mp hl).2.2 e he x mem_cons_self) hx)
  rw [filter_append, hn, nil_append]

theorem scan_eq_nil_or (m : OrdMap κ υ) (hp : ∀ a, p a = true → Block a p) (start : κ) :
    (m.rangeFrom start).takeWhile (fun e => p e.1) = [] ∨
    (m.rangeFrom start).takeWhile (fun e => p e.1) =
      (m.entries.filter fun e => p e.1).filter fun e => decide (start ≤ e.1) := by
  have hs : (m.rangeFrom start).Pairwise fun a b => a.1 < b.1 := m.sorted.filter _
  cases hrn : m.rangeFrom start with
  | nil => exact .inl rfl
  | cons e l =>
    rw [hrn] at hs
    cases he : p e.1 with
    | false => exact .inl (takeWhile_cons_of_neg (by rw [he]; decide))
    | true =>
      -- the first key is in the block, so the block starts there
      right
      have hfr : ∀ a ∈ e :: l, e.1 ≤ a.1 := by
        intro a ha
        rcases mem_cons.mp ha with rfl | ha
        · exact le_refl _
        · exact ((pairwise_cons.mp hs).1 a ha).le
      rw [takeWhile_eq_filter (hp e.1 he) hs hfr, ← hrn, rangeFrom, filter_filter,
        filter_filter]
      apply filter_congr
      intro a _
      exact Bool.and_comm _ _

/-! ## other keys -/

section
variable {κ' : Type} [LinearOrder κ'] {f : κ → κ'} {S : Set κ}

theorem mem_keys_insert (h : k' ∈ (m.insert k v).keys) : k' = k ∨ k' ∈ m.keys := by
  obtain ⟨e, he, rfl⟩ := mem_map.mp h
  rcases mem_insertList he with rfl | he
  · exact .inl rfl
  · exact .inr (mem_map.mpr ⟨e, he, rfl⟩)

def Renames (f : κ → κ') (m : OrdMap κ υ) (m' : OrdMap κ' υ) : Prop :=
  m'.entries = m.entries.map fun e => (f e.1, e.2)

theorem Renames.values {m' : OrdMap κ' υ} (h : Renames f m m') : m'.values = m.values := by
  rw [OrdMap.values, h, map_map]
  rfl

theorem insertList_map (hf : StrictMonoOn f S) (hk : k ∈ S) (hl : ∀ e ∈ l, e.1 ∈ S) :
    insertList (f k) v (l.map fun e => (f e.1, e.2)) =
      (insertList k v l).map fun e => (f e.1, e.2) := by
  induction l with
  | nil => rfl
  | cons e l ih =>
    have he := hl e mem_cons_self
    rw [map_cons, insertList, insertList]
    by_cases hlt : k < e.1
    · rw [if_pos hlt, if_pos (hf hk he hlt)]
      rfl
    · rw [if_neg hlt, if_neg (fun h => hlt ((hf.lt_iff_lt hk he).mp h))]
      by_cases heq : k = e.1
      · rw [if_pos heq, if_pos (congrArg f heq)]
        rfl
      · rw [if_neg heq, if_neg (fun h => heq (hf.injOn hk he h)), map_cons,
          ih fun a ha => hl a (mem_cons_of_mem e ha)]

theorem Renames.insert {m' : OrdMap κ' υ} (h : Renames f m m') (hf : StrictMonoOn f S)
    (hm : ∀ k ∈ m.keys, k ∈ S) (hk : k ∈ S) (v : υ) :
    Renames f (m.insert k v) (m'.insert (f k) v) := by
  show insertList (f k) v m'.entries = _
  rw [h]
  exact insertList_map hf hk fun e he => hm e.1 (mem_map.mpr ⟨e, he, rfl⟩)

theorem insertList_last (h : ∀ e ∈ l, e.1 < k) : insertList k v l = l ++ [(k, v)] := by
  induction l with
  | nil => rfl
  | cons e l ih =>
    have he := h e mem_cons_self
    rw [insertList, if_neg he.le.not_gt, if_neg he.ne', ih fun a ha => h a (mem_cons_of_mem e ha)]
    rfl

theorem entries_foldl_of_sorted (hl : l.Pairwise fun a b => a.1 < b.1)
    (hm : ∀ a ∈ m.entries, ∀ b ∈ l, a.1 < b.1) :
    (l.foldl (fun m e => m.insert e.1 e.2) m).entries = m.entries ++ l := by
  induction l generalizing m with
  | nil => exact (append_nil _).symm
  | cons e l ih =>
    obtain ⟨he, hl⟩ := pairwise_cons.mp hl
    have hls : (m.insert e.1 e.2).entries = m.entries ++ [e] :=
      insertList_last fun a ha => hm a ha e mem_cons_self
    rw [foldl_cons, ih hl, hls, append_assoc]
    · rfl
    · intro a ha b hb
      rw [hls] at ha
      rcases mem_append.mp ha with ha | ha
      · exact hm a ha b (mem_cons_of_mem e hb)
      · rw [mem_singleton.mp ha]
        exact he b hb

end

end OrdMap

/-! ## lists as keys -/

section
variable {α : Type} [LinearOrder α]

variable {a : List α}

theorem cons_le_cons_iff_tail {x : α} {p : List α} : x :: p ≤ x :: a ↔ p ≤ a := by
  rw [← not_lt, ← not_lt, cons_lt_cons_iff]
  constructor
  · intro h hlt
    exact h (.inr ⟨rfl, hlt⟩)
  · rintro h (hlt | ⟨-, hlt⟩)
    · exact lt_irrefl x hlt
    · exact h hlt

theorem le_of_isPrefix {p : List α} (h : p <+: a) : p ≤ a := by
  obtain ⟨c, rfl⟩ := h
  induction p with
  | nil => exact not_lt.mp (not_lt_nil c)
  | cons x p ih => exact cons_le_cons_iff_tail.mpr ih

theorem isPrefix_of_between {p c : List α} (hp : p ≤ a) (ha : a < p ++ c) : p <+: a := by
  induction p generalizing a with
  | nil => exact nil_prefix
  | cons x p ih =>
    cases a with
    | nil => exact absurd hp (not_le.mpr (nil_lt_cons x p))
    | cons y a =>
      rcases cons_lt_cons_iff.mp ha with hlt | ⟨rfl, hlt⟩
      · exact absurd hp (not_le.mpr (cons_lt_cons_iff.mpr (.inl hlt)))
      · rw [cons_prefix_cons]
        exact ⟨rfl, ih (cons_le_cons_iff_tail.mp hp) hlt⟩

theorem block_isPrefix [DecidableEq α] {p start : List α} (hsr : p ≤ start) :
    OrdMap.Block start fun x => p.isPrefixOf x := by
  intro a b hle hlt ha
  rw [Bool.eq_false_iff] at ha ⊢
  intro hb
  obtain ⟨c, rfl⟩ := isPrefixOf_iff_prefix.mp hb
  exact ha <| isPrefixOf_iff_prefix.mpr (isPrefix_of_between (le_trans hsr hle) hlt)

theorem raised_le_iff {u x : List α} {b c : α} (hbc : b ⋖ c) (hx : u ++ [b] < x) :
    u ++ [c] ≤ x ↔ ¬ u ++ [b] <+: x := by
  induction u generalizing x with
  | nil =>
    cases x with
    | nil => exact absurd hx (not_lt_nil _)
    | cons y x =>
      show [c] ≤ y :: x ↔ ¬ [b] <+: y :: x
      have hpr : [b] <+: y :: x ↔ b = y := by
        rw [cons_prefix_cons]
        exact ⟨fun h => h.1, fun h => ⟨h, nil_prefix⟩⟩
      rw [hpr]
      rcases cons_lt_cons_iff.mp hx with hlt | ⟨rfl, -⟩
      · -- nothing lies between `b` and `c`
        have hcy : c ≤ y := not_lt.mp fun h => hbc.2 hlt h
        refine iff_of_true ?_ hlt.ne
        by_contra hcn
        rcases cons_lt_cons_iff.mp (not_le.mp hcn) with h | ⟨-, h⟩
        · exact absurd hcy (not_le.mpr h)
        · exact not_lt_nil _ h
      · refine iff_of_false ?_ (fun h => h rfl)
        exact not_le.mpr (cons_lt_cons_iff.mpr (.inl hbc.1))
  | cons z u ih =>
    cases x with
    | nil => exact absurd hx (not_lt_nil _)
    | cons y x =>
      rw [cons_append, cons_append, cons_prefix_cons]
      rcases cons_lt_cons_iff.mp hx with hlt | ⟨rfl, hlt⟩
      · exact iff_of_true (cons_lt_cons_iff.mpr (.inl hlt)).le fun h => hlt.ne h.1
      · rw [cons_le_cons_iff_tail, ih hlt]
        exact not_congr ⟨fun h => ⟨rfl, h⟩, fun h => h.2⟩

end

end Platform.Lib

namespace Platform.Lib.Bytewise

/-- bytes by their value; lists of them are then ordered as slices are -/
scoped instance linearOrderUInt8 : LinearOrder UInt8 where
  le_refl := UInt8.le_refl
  le_trans := fun _ _ _ => UInt8.le_trans
  lt_iff_le_not_ge a b := by
    rw [UInt8.lt_iff_toNat_lt, UInt8.le_iff_toNat_le, UInt8.le_iff_toNat_le]
    omega
  le_antisymm := fun _ _ => UInt8.le_antisymm
  le_total := UInt8.le_total
  toDecidableLE := inferInstance

end Platform.Lib.Bytewise
