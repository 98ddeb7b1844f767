import Platform.Distributed.Storage

/-!
# What the rules of a challenge see

`propose_write_validated` looks the entry up with `get_raw` and counts with `count_category`.  Both
write their keys with the challenge first (`challenge:tag::key`, `challenge:tag:`), where
`build_key` has the tag of the category.
-/

namespace Platform.Distributed
open Platform.Core Lib Chain Option
open scoped Lib.Bytewise
open Storage (colon ColonFree utf8_colon append_colon_isPrefix)
open DistributedStorage (rawKey)

/-! ## the keys of the two functions -/

def categoryOf (tag : String) : Option Category := Category.all.find? fun c => c.tag = tag

theorem categoryOf_eq_some {tag : String} {c : Category} :
    categoryOf tag = some c ↔ c.tag = tag := by
  constructor
  · intro h
    have htg := List.find?_some h
    exact of_decide_eq_true htg
  · intro h
    subst h
    cases c <;> decide +kernel

theorem categoryOf_eq_none {tag : String} (h : categoryOf tag = none) (c : Category) :
    c.tag ≠ tag := by
  intro hc
  rw [categoryOf_eq_some.mpr hc] at h
  cases h

section
variable {s : DistributedStorage} {validator : String} {category c : Category}
  {challengeId key : String}

theorem rawKey_eq (category : Category) (challengeId key : String) :
    rawKey category challengeId key =
      utf8 challengeId ++ colon :: (utf8 category.tag ++ colon :: utf8 (":" ++ key)) := by
  have ha : challengeId ++ ":" ++ (category.tag ++ ":") ++ ":" ++ key =
      challengeId ++ ":" ++ (category.tag ++ ":" ++ (":" ++ key)) := by
    simp only [String.append_assoc]
  rw [rawKey, ha, utf8_colon, utf8_colon]

theorem rawKey_tag (category c : Category) (key : String) :
    rawKey category c.tag key = buildKey c category.tag (":" ++ key) := by
  rw [rawKey_eq, buildKey_eq]

variable (h : Keyed IdColonFree validator s) (hid : ColonFree challengeId)

section
include h hid

/-- Only under a tag as challenge id can `get_raw` find something. -/
theorem get_rawKey (category : Category) (key : String) :
    s.dataTree.get (rawKey category challengeId key) =
      (categoryOf challengeId).bind fun c => s.stored c category.tag (":" ++ key) := by
  cases hc : categoryOf challengeId with
  | some c =>
    rw [← categoryOf_eq_some.mp hc, rawKey_tag]
    rfl
  | none =>
    rw [bind_none, eq_none_iff_forall_ne_some]
    intro e he
    obtain ⟨hk, _⟩ := h.stored he
    rw [rawKey_eq, StoredEntry.storageKey, buildKey_eq] at hk
    obtain ⟨htg, _⟩ := append_cons_inj hid e.header.category.colonFree_tag hk
    exact categoryOf_eq_none hc e.header.category (utf8_inj htg).symm

/-- Which keys `count_category` counts. -/
theorem countKey_isPrefix {k : Bytes} {e : StoredEntry} (he : s.dataTree.get k = some e) :
    utf8 (challengeId ++ ":" ++ (category.tag ++ ":")) <+: k ↔
      challengeId = e.header.category.tag ∧ category.tag = e.header.challengeId := by
  obtain ⟨rfl, hfr⟩ := h.stored he
  have hcn : utf8 (challengeId ++ ":" ++ (category.tag ++ ":")) =
      utf8 challengeId ++ colon :: (utf8 category.tag ++ colon :: []) := by
    rw [utf8_colon]
    rfl
  rw [hcn, StoredEntry.storageKey, buildKey_eq,
    append_colon_isPrefix hid e.header.category.colonFree_tag,
    append_colon_isPrefix category.colonFree_tag hfr]
  constructor
  · intro hbt
    exact ⟨utf8_inj hbt.1, utf8_inj hbt.2.1⟩
  · intro hbt
    exact ⟨congrArg utf8 hbt.1, congrArg utf8 hbt.2, List.nil_prefix⟩

/-- Only under a tag as challenge id can `count_category` count something. -/
theorem countCategory_eq (category : Category) :
    s.countCategory challengeId category =
      ((categoryOf challengeId).map fun c => s.entryCount c category.tag).getD 0 := by
  have hm : ∀ p ∈ s.dataTree.entries,
      (utf8 (challengeId ++ ":" ++ (category.tag ++ ":"))).isPrefixOf p.1 =
        decide (challengeId = p.2.header.category.tag ∧ category.tag = p.2.header.challengeId) := by
    intro p hp
    rw [← decide_eq_decide.mpr (countKey_isPrefix h hid (OrdMap.get_eq_some.mpr hp)),
      Bool.eq_iff_iff, List.isPrefixOf_iff_prefix, decide_eq_true_eq]
  rw [DistributedStorage.countCategory, DistributedStorage.scan, List.filter_congr hm]
  cases hc : categoryOf challengeId with
  | some c =>
    rw [map_some, getD_some, DistributedStorage.entryCount]
    congr 1
    apply List.filter_congr
    intro p _
    rw [← categoryOf_eq_some.mp hc, decide_eq_decide]
    constructor
    · intro hbt
      exact ⟨(Category.tag_inj hbt.1).symm, hbt.2.symm⟩
    · intro hbt
      exact ⟨congrArg Category.tag hbt.1.symm, hbt.2.symm⟩
  | none =>
    rw [map_none, getD_none, List.length_eq_zero_iff, List.filter_eq_nil_iff]
    intro p _ htr
    exact categoryOf_eq_none hc p.2.header.category (of_decide_eq_true htr).1.symm

end

/-! ## what the rules see -/

def DistributedStorage.storedHash (s : DistributedStorage) (category : Category)
    (challengeId key : String) : Option Bytes32 :=
  (s.stored category challengeId key).map fun e => e.header.valueHash

structure SeesStore (s : DistributedStorage) (category : Category) (challengeId key : String)
    (info : WriteRequestInfo) : Prop where
  isUpdate : info.isUpdate = true ↔ (s.stored category challengeId key).isSome = true
  previousHash : info.previousHash = s.storedHash category challengeId key
  entryCount : info.categoryEntryCount = s.entryCount category challengeId

def ReadsAlike (s : DistributedStorage) (category : Category) (challengeId key : String) : Prop :=
  match categoryOf challengeId with
  | none => s.entryCount category challengeId = 0
  | some c =>
    s.storedHash c category.tag (":" ++ key) = s.storedHash category challengeId key ∧
      s.entryCount c category.tag = s.entryCount category challengeId

include h hid in
theorem stored_eq_none (hcn : s.entryCount category challengeId = 0) (key : String) :
    s.stored category challengeId key = none := by
  rw [eq_none_iff_forall_ne_some]
  intro e he
  obtain ⟨hk, hfr⟩ := h.stored he
  obtain ⟨hct, hch, _⟩ := buildKey_inj hid hfr hk
  rw [DistributedStorage.entryCount, List.length_eq_zero_iff, List.filter_eq_nil_iff] at hcn
  exact hcn _ (OrdMap.get_eq_some.mp he) (decide_eq_true ⟨hct.symm, hch.symm⟩)

variable {value : Value} {creatorStake : UInt64} {info : WriteRequestInfo}

include h hid in
theorem requestInfo_spec
    (hif : s.requestInfo category challengeId key value creatorStake = .ok info) :
    info.isUpdate = info.previousHash.isSome ∧
    info.previousHash =
      ((categoryOf challengeId).bind fun c => s.storedHash c category.tag (":" ++ key)) ∧
    info.categoryEntryCount =
      ((categoryOf challengeId).map fun c => s.entryCount c category.tag).getD 0 := by
  unfold DistributedStorage.requestInfo at hif
  split at hif
  · cases hif
  · cases hif
    refine ⟨isSome_map.symm, ?_, countCategory_eq h hid category⟩
    show (s.dataTree.get (rawKey category challengeId key)).map (fun e => e.header.valueHash) = _
    rw [get_rawKey h hid, map_bind]
    rfl

/-- For every run and every request: the rules see the store as it is exactly when what is read in
place of the challenge's entries agrees with them. -/
theorem sees_store_iff {C : Crypto} {compress : Bytes → Bytes} {log : List StorageCall}
    (hrun : MachineRun (storageNext C compress) (.new validator) log s)
    (hids : ∀ c ∈ log, c.input.2.Names IdColonFree validator) (hid : ColonFree challengeId)
    (hinfo : s.requestInfo category challengeId key value creatorStake = .ok info) :
    SeesStore s category challengeId key info ↔ ReadsAlike s category challengeId key := by
  have h := keyed_run hrun hids
  obtain ⟨hu, hpr, hcn⟩ := requestInfo_spec h hid hinfo
  unfold ReadsAlike
  cases hc : categoryOf challengeId with
  | none =>
    rw [hc] at hpr hcn
    constructor
    · intro hss
      exact hss.entryCount.symm.trans hcn
    · intro hz
      have hn := stored_eq_none h hid hz key
      refine ⟨?_, ?_, hcn.trans hz.symm⟩
      · rw [hu, hpr, hn]
        rfl
      · rw [hpr, DistributedStorage.storedHash, hn]
        rfl
  | some c =>
    rw [hc] at hpr hcn
    constructor
    · intro hss
      exact ⟨hpr.symm.trans hss.previousHash, hcn.symm.trans hss.entryCount⟩
    · intro hbt
      have hh := hpr.trans hbt.1
      refine ⟨?_, hh, hcn.trans hbt.2⟩
      rw [hu, hh, DistributedStorage.storedHash, isSome_map]

def firstWrite : Nat × StorageOp :=
  (0, .proposeWrite .submission "c" "k" ⟨.ok [7], .ok [55]⟩ none)

def oneWrite : DistributedStorage :=
  (trace (storageNext sampleCrypto id) (.new "v") [firstWrite]).2

/-- The rules of a challenge without entries are told so. -/
theorem sees_store_other_challenge :
    ∃ info, oneWrite.requestInfo .submission "d" "k" ⟨.ok [8], .ok [56]⟩ 0 = .ok info ∧
      SeesStore oneWrite .submission "d" "k" info := by
  obtain ⟨info, hif⟩ : ∃ info,
      oneWrite.requestInfo .submission "d" "k" ⟨.ok [8], .ok [56]⟩ 0 = .ok info := ⟨_, rfl⟩
  have his : ∀ c ∈ (trace (storageNext sampleCrypto id) (.new "v") [firstWrite]).1,
      c.input.2.Names IdColonFree "v" := by
    intro c hc
    cases List.mem_singleton.mp hc
    show ColonFree "c"
    decide +kernel
  have hrun := machineRun_trace (storageNext sampleCrypto id) (.new "v") [firstWrite]
  refine ⟨info, hif, (sees_store_iff hrun his (by decide +kernel) hif).mpr ?_⟩
  show oneWrite.entryCount .submission "d" = 0
  decide +kernel

/-- The next write to the same key is announced as the first of its challenge. -/
theorem overwrite_unseen :
    (oneWrite.stored .submission "c" "k").isSome = true ∧
    oneWrite.entryCount .submission "c" = 1 ∧
    ∃ info, oneWrite.requestInfo .submission "c" "k" ⟨.ok [8], .ok [56]⟩ 0 = .ok info ∧
      info.isUpdate = false ∧ info.previousHash = none ∧ info.categoryEntryCount = 0 :=
  ⟨by decide +kernel, by decide +kernel, _, rfl, by decide +kernel, by decide +kernel,
    by decide +kernel⟩

end

end Platform.Distributed
