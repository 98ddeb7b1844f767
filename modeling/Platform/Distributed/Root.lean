import Platform.Distributed.Storage

/-!
# The root of a challenge

`merkle_root` hashes the entries whose key begins with the challenge id.  Keys begin with the tag of
a category, so what the root of a challenge covers is decided by the categories alone.
-/

namespace Platform.Distributed
open Platform.Core Lib Chain DistributedStorage
open scoped Lib.Bytewise
open Storage (ColonFree isPrefix_append_colon)

namespace DistributedStorage

/-- what `merkle_root` hashes -/
def rootBytes (s : DistributedStorage) (challengeId : String) : Bytes :=
  (s.scan (utf8 challengeId)).flatMap fun p => p.1 ++ p.2.toBytes

def merkleRoot (C : Crypto) (s : DistributedStorage) (challengeId : String) : Bytes32 :=
  C.sha256 (s.rootBytes challengeId)

end DistributedStorage

section
variable {C : Crypto} {s s' s₁ : DistributedStorage} {validator validator' : String}
  {c : String} {entry : StoredEntry}

/-! ## what the root covers -/

def Covers (c : String) (category : Category) : Prop := utf8 c <+: utf8 category.tag

instance (c : String) (category : Category) : Decidable (Covers c category) :=
  inferInstanceAs (Decidable (_ <+: _))

/-- the keys and entries in the categories that a challenge id covers -/
def coveredBytes (c : String) (s : DistributedStorage) : Bytes :=
  (s.dataTree.entries.filter fun p => decide (Covers c p.2.header.category)).flatMap fun p =>
    p.1 ++ p.2.toBytes

theorem isPrefix_storageKey (hc : ColonFree c) (entry : StoredEntry) :
    utf8 c <+: entry.storageKey ↔ Covers c entry.header.category := by
  rw [StoredEntry.storageKey, buildKey_eq]
  exact isPrefix_append_colon hc

theorem coveredBytes_eq (h : Keyed IdColonFree validator s) (hc : ColonFree c) :
    s.rootBytes c = coveredBytes c s := by
  rw [rootBytes]
  congr 1
  apply List.filter_congr
  intro p hp
  obtain ⟨hk, _⟩ := h.stored (OrdMap.get_eq_some.mpr hp)
  rw [Bool.eq_iff_iff, List.isPrefixOf_iff_prefix, decide_eq_true_eq, hk]
  exact isPrefix_storageKey hc p.2

/-! ## writes -/

theorem merkleRoot_of_uncovered (h : Keyed IdColonFree validator s) (hc : ColonFree c)
    (hn : ∀ cat, ¬ Covers c cat) : s.merkleRoot C c = C.sha256 [] := by
  have hem : coveredBytes c s = [] := by
    rw [coveredBytes, List.filter_eq_nil_iff.mpr]
    · rfl
    · intro p _ hcv
      exact hn _ (of_decide_eq_true hcv)
  rw [merkleRoot, coveredBytes_eq h hc, hem]

def Wrote (entry : StoredEntry) (s s₁ : DistributedStorage) : Prop :=
  s₁.dataTree = s.dataTree.insert entry.storageKey entry

def bytesUnder (entry : StoredEntry) (s : DistributedStorage) : Option Bytes :=
  (s.dataTree.get entry.storageKey).map StoredEntry.toBytes

theorem storageKey_ne_nil (entry : StoredEntry) : entry.storageKey ≠ [] := by
  rw [StoredEntry.storageKey, buildKey_eq]
  exact List.append_ne_nil_of_right_ne_nil _ (List.cons_ne_nil _ _)

theorem rootBytes_wrote_iff (hwr : Wrote entry s s₁) :
    s₁.rootBytes c = s.rootBytes c ↔
      (utf8 c <+: entry.storageKey → bytesUnder entry s = some entry.toBytes) := by
  obtain ⟨l₁, l₂, his, hl⟩ := OrdMap.insertList_split entry.storageKey s.dataTree.sorted
  have ha : s₁.dataTree.entries = l₁ ++ (entry.storageKey, entry) :: l₂ := by
    rw [hwr]
    exact his entry
  change _ = l₁ ++ (((s.dataTree.get entry.storageKey).map fun v =>
    (entry.storageKey, v)).toList ++ l₂) at hl
  rw [rootBytes, rootBytes, scan, scan, ha, hl, bytesUnder]
  by_cases hcv : utf8 c <+: entry.storageKey
  · have htr := List.isPrefixOf_iff_prefix.mpr hcv
    cases hg : s.dataTree.get entry.storageKey with
    | none =>
      -- the new entry makes the bytes longer
      suffices hln : _ ≠ _ by simpa [hcv, htr] using hln
      intro heq
      have hle := congrArg List.length heq
      have hp := List.length_pos_of_ne_nil (storageKey_ne_nil entry)
      simp only [List.length_append] at hle
      omega
    | some e => simp [hcv, htr, eq_comm]
  · have hfl : (utf8 c).isPrefixOf entry.storageKey = false := by
      rw [Bool.eq_false_iff]
      intro htr
      exact hcv (List.isPrefixOf_iff_prefix.mp htr)
    cases hg : s.dataTree.get entry.storageKey with
    | none | some e => simp [hcv, hfl]

/-! ## binding -/

def SameEntries (c : String) (s s' : DistributedStorage) : Prop :=
  ∀ category key, s.stored category c key = s'.stored category c key

theorem sameEntries_wrote (hwr : Wrote entry s s₁) (hc : ColonFree c)
    (hfr : ColonFree entry.header.challengeId) (hoh : entry.header.challengeId ≠ c) :
    SameEntries c s s₁ := by
  intro cat key
  have hk : buildKey cat c key ≠ entry.storageKey := by
    intro heq
    exact hoh (buildKey_inj hc hfr heq).2.1.symm
  rw [stored, stored, hwr, OrdMap.get_insert_of_ne _ hk]

theorem sha256_eq_iff {xs : List Bytes} {x y : Bytes} (hsp : C.Separates xs) (hx : x ∈ xs)
    (hy : y ∈ xs) : C.sha256 x = C.sha256 y ↔ x = y :=
  ⟨hsp x hx y hy, congrArg C.sha256⟩

/-- For every two reachable stores and every write: the root of a challenge binds its entries and no
others exactly when the bytes it covers do. -/
theorem root_binds_iff {compress : Bytes → Bytes} {log log' : List StorageCall}
    (hrun : MachineRun (storageNext C compress) (.new validator) log s)
    (hids : ∀ call ∈ log, call.input.2.Names IdColonFree validator)
    (hrun' : MachineRun (storageNext C compress) (.new validator') log' s')
    (hids' : ∀ call ∈ log', call.input.2.Names IdColonFree validator') (hc : ColonFree c)
    (hwrote : Wrote entry s s₁)
    (hsep : C.Separates [s.rootBytes c, s'.rootBytes c, s₁.rootBytes c]) :
    (s.merkleRoot C c = s'.merkleRoot C c → SameEntries c s s') ∧
        (entry.header.challengeId ≠ c → s₁.merkleRoot C c = s.merkleRoot C c) ↔
      (coveredBytes c s = coveredBytes c s' → SameEntries c s s') ∧
        (entry.header.challengeId ≠ c → Covers c entry.header.category →
          bytesUnder entry s = some entry.toBytes) := by
  have hpr : s.merkleRoot C c = s'.merkleRoot C c ↔ coveredBytes c s = coveredBytes c s' := by
    rw [← coveredBytes_eq (keyed_run hrun hids) hc, ← coveredBytes_eq (keyed_run hrun' hids') hc]
    exact sha256_eq_iff hsep (by simp) (by simp)
  have hwr : s₁.merkleRoot C c = s.merkleRoot C c ↔
      (Covers c entry.header.category → bytesUnder entry s = some entry.toBytes) := by
    rw [← isPrefix_storageKey hc, ← rootBytes_wrote_iff hwrote]
    exact sha256_eq_iff hsep (by simp) (by simp)
  rw [hpr, hwr]

/-- the inputs of a run that stores the sample -/
def syncing : List (Nat × StorageOp) := [(0, .writeDirect sampleEntry)]

def synced : DistributedStorage := (trace (storageNext sampleCrypto id) (.new "v") syncing).2

theorem synced_names : ∀ call ∈ (trace (storageNext sampleCrypto id) (.new "v") syncing).1,
    call.input.2.Names IdColonFree "v" := by
  intro call hcl
  cases List.mem_singleton.mp hcl
  show ColonFree "c"
  decide +kernel

/-- The root of an id that begins no tag stays when another challenge is written to. -/
theorem root_binds_other_challenge :
    ((new "v").merkleRoot sampleCrypto "d" = synced.merkleRoot sampleCrypto "d" →
      SameEntries "d" (.new "v") synced) ∧
    (sampleEntry.header.challengeId ≠ "d" → synced.merkleRoot sampleCrypto "d" =
      (new "v").merkleRoot sampleCrypto "d") := by
  have hwr : Wrote sampleEntry (.new "v") synced := rfl
  have hrun := machineRun_trace (storageNext sampleCrypto id) (.new "v") syncing
  refine (root_binds_iff .nil (by simp) hrun synced_names (by decide +kernel) hwr
    (by decide +kernel)).mpr ⟨?_, ?_⟩
  · intro _
    exact sameEntries_wrote hwr (by decide +kernel) (by decide +kernel) (by decide +kernel)
  · intro _ hcv
    exact absurd hcv (by decide +kernel)

/-- The root of an ordinary id misses the entries of its challenge, and the root of an id that is a
tag changes with the entries of another. -/
theorem root_misses_entry :
    ((new "v").merkleRoot sampleCrypto "c" = synced.merkleRoot sampleCrypto "c" ∧
      (new "v").stored .submission "c" "k" = none ∧
      synced.stored .submission "c" "k" = some sampleEntry) ∧
    synced.merkleRoot sampleCrypto "sub" ≠ (new "v").merkleRoot sampleCrypto "sub" := by
  decide +kernel

end

end Platform.Distributed
