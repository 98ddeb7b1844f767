import Platform.Core.Crypto
import Platform.Core.F64
import Platform.Lib.Fields
import Platform.Lib.OrdMap
import Platform.Lib.Sorting

/-!
# Commitments to weights (`weights.rs` of the challenge SDK, `mechanism_weights.rs`)

A commitment is the hash of the weights and of a secret, written one after the other.
-/

namespace Platform.Epoch
open Platform.Core Lib List
open scoped Lib.Bytewise

structure WeightAssignment (F : Type) where
  hotkey : String
  weight : F
deriving DecidableEq

section
variable {F : Type} [F64 F]

/-- the order of the hotkeys, by their bytes -/
def ByHotkey (a b : WeightAssignment F) : Prop := utf8 a.hotkey ≤ utf8 b.hotkey

instance : DecidableRel (ByHotkey (F := F)) := fun a b =>
  inferInstanceAs (Decidable (utf8 a.hotkey ≤ utf8 b.hotkey))

def WeightAssignment.bits (w : WeightAssignment F) : String × UInt64 :=
  (w.hotkey, F64.toBits w.weight)

def commitmentFields (weights : List (WeightAssignment F)) (secret : Bytes) : List Bytes :=
  tagged ((weights.insertionSort ByHotkey).map WeightAssignment.bits) ++ [secret]

def createCommitment (C : Crypto) (weights : List (WeightAssignment F)) (secret : Bytes) : String :=
  hexEncode (C.sha256 (commitmentFields weights secret).flatten).bytes

def normalizeWeights (weights : List (WeightAssignment F)) : List (WeightAssignment F) :=
  let total := weights.foldl (fun total w => F64.add total w.weight) F64.zero
  if F64.lt F64.zero total then weights.map fun w => { w with weight := F64.div w.weight total }
  else weights

end

def mechanismFields (uids weights : List UInt16) (salt : Bytes) : List Bytes :=
  uids.map encodeU16 ++ (weights.map encodeU16 ++ [salt])

/-- `MechanismCommitment::compute_hash` -/
def mechanismHash (C : Crypto) (uids weights : List UInt16) (salt : Bytes) : Bytes32 :=
  C.sha256 (mechanismFields uids weights salt).flatten

/-! ## the fields and their lengths -/

/-- the same order on the pairs that are hashed -/
def ByText (a b : String × UInt64) : Prop := utf8 a.1 ≤ utf8 b.1

instance : DecidableRel ByText := fun a b => inferInstanceAs (Decidable (utf8 a.1 ≤ utf8 b.1))

instance : Std.Total ByText where
  total a b := le_total (utf8 a.1) (utf8 b.1)

instance : IsTrans (String × UInt64) ByText where
  trans _ _ _ hab hbc := le_trans hab hbc

section
variable {F : Type} [F64 F] {ws ws' : List (WeightAssignment F)} {sec sec' : Bytes}

def entryBits (ws : List (WeightAssignment F)) : List (String × UInt64) :=
  ws.map WeightAssignment.bits

/-- the entries in the order in which they are hashed -/
def sortedBits (ws : List (WeightAssignment F)) : List (String × UInt64) :=
  (ws.insertionSort ByHotkey).map WeightAssignment.bits

theorem sortedBits_eq (ws : List (WeightAssignment F)) :
    sortedBits ws = (entryBits ws).insertionSort ByText :=
  map_insertionSort ByHotkey ByText WeightAssignment.bits ws fun _ _ _ _ => Iff.rfl

theorem sortedBits_eq_iff (hws : (ws.map WeightAssignment.hotkey).Nodup) :
    sortedBits ws = sortedBits ws' ↔ (entryBits ws).Perm (entryBits ws') := by
  rw [sortedBits_eq, sortedBits_eq]
  constructor
  · intro h
    have hpr := perm_insertionSort ByText (entryBits ws)
    rw [h] at hpr
    exact hpr.symm.trans (perm_insertionSort ByText (entryBits ws'))
  · intro h
    refine insertionSort_eq_of_perm h fun a ha b hb hab hba => ?_
    have hnd : ((entryBits ws).map Prod.fst).Nodup := by
      rw [entryBits, map_map]
      exact hws
    exact inj_on_of_nodup_map hnd ha hb (utf8_inj (le_antisymm hab hba))

theorem sortedBits_of_flatten
    (h : (commitmentFields ws sec).flatten = (commitmentFields ws' sec').flatten) :
    sortedBits ws = sortedBits ws' ↔
      textLengths (sortedBits ws) = textLengths (sortedBits ws') := by
  refine ⟨congrArg textLengths, fun hln => ?_⟩
  unfold commitmentFields at h
  rw [flatten_append, flatten_append] at h
  exact tagged_inj.mp (flatten_append_inj h (map_length_tagged.mpr hln)).1

end

theorem mechanism_of_flatten {uids uids' ws ws' : List UInt16} {salt salt' : Bytes}
    (h : (mechanismFields uids ws salt).flatten = (mechanismFields uids' ws' salt').flatten) :
    uids = uids' ∧ ws = ws' ↔ uids.length = uids'.length ∧ ws.length = ws'.length := by
  refine ⟨fun hs => ⟨congrArg _ hs.1, congrArg _ hs.2⟩, fun ⟨hu, hwg⟩ => ?_⟩
  have hij : Function.Injective (map encodeU16) := map_injective_iff.mpr fun _ _ => encodeU16_inj
  unfold mechanismFields at h
  rw [flatten_append, flatten_append, flatten_append, flatten_append] at h
  obtain ⟨hfr, hr⟩ := flatten_append_inj h (map_length_encodeU16 hu)
  obtain ⟨hsc, -⟩ := flatten_append_inj hr (map_length_encodeU16 hwg)
  exact ⟨hij hfr, hij hsc⟩

/-- **What a commitment binds.**  If SHA-256 tells the bytes apart that are hashed, weights with one
commitment (no hotkey twice) have the same entries if and only if their hotkeys, sorted, have the
same lengths place by place; and a hash of a mechanism determines uids and weights if and only if
their numbers agree. -/
theorem commitments_bind_iff {F : Type} [F64 F] (C : Crypto) :
    (∀ (ws ws' : List (WeightAssignment F)) (secret secret' : Bytes),
      (ws.map WeightAssignment.hotkey).Nodup → (ws'.map WeightAssignment.hotkey).Nodup →
      C.Separates [(commitmentFields ws secret).flatten, (commitmentFields ws' secret').flatten] →
      createCommitment C ws secret = createCommitment C ws' secret' →
      ((entryBits ws).Perm (entryBits ws') ↔
        textLengths (sortedBits ws) = textLengths (sortedBits ws'))) ∧
    ∀ (uids uids' weights weights' : List UInt16) (salt salt' : Bytes),
      C.Separates [(mechanismFields uids weights salt).flatten,
        (mechanismFields uids' weights' salt').flatten] →
      mechanismHash C uids weights salt = mechanismHash C uids' weights' salt' →
      (uids = uids' ∧ weights = weights' ↔
        uids.length = uids'.length ∧ weights.length = weights'.length) := by
  constructor
  · intro ws ws' secret secret' hws _ hsp h
    rw [← sortedBits_eq_iff hws]
    refine sortedBits_of_flatten (hsp _ mem_cons_self _ (mem_cons_of_mem _ mem_cons_self) ?_)
    exact Bytes32.bytes_inj (hexEncode_inj h)
  · intro uids uids' weights weights' salt salt' hsp h
    exact mechanism_of_flatten (hsp _ mem_cons_self _ (mem_cons_of_mem _ mem_cons_self) h)

def twoAssignments : List (WeightAssignment ℚ) := [⟨"b", 1⟩, ⟨"a", 0⟩]

def oneAssignment : List (WeightAssignment ℚ) := [⟨"a", 0⟩]

def hiddenEntry : Bytes := utf8 "b" ++ encodeU64 (F64.toBits (1 : ℚ))

theorem commitments_bind_sample :
    ((entryBits twoAssignments).Perm (entryBits twoAssignments.reverse)) ∧
      ¬ (entryBits twoAssignments).Perm (entryBits oneAssignment) ∧
      (([1, 2] : List UInt16) = [1, 2] ∧ ([7] : List UInt16) = [7]) := by
  obtain ⟨hbn, hm⟩ := commitments_bind_iff (F := ℚ) sampleCrypto
  refine ⟨?_, ?_, ?_⟩
  · exact (hbn twoAssignments twoAssignments.reverse [5] [5] (by decide +kernel)
      (by decide +kernel) (by decide +kernel) (by decide +kernel)).mpr (by decide +kernel)
  · intro h
    have hln := (hbn twoAssignments oneAssignment [] hiddenEntry (by decide +kernel)
      (by decide +kernel) (by decide +kernel) (by decide +kernel)).mp h
    exact absurd hln (by decide +kernel)
  · exact (hm [1, 2] [1, 2] [7] [7] [3] [3] (by decide +kernel) rfl).mpr ⟨rfl, rfl⟩

/-- The bytes of an entry can stand in the secret; the bytes of weights can stand in the salt, and
those of a uid among the weights. -/
theorem commitments_not_binding :
    (¬ ∀ (C : Crypto) (ws ws' : List (WeightAssignment ℚ)) (secret secret' : Bytes),
      (ws.map WeightAssignment.hotkey).Nodup → (ws'.map WeightAssignment.hotkey).Nodup →
      C.Separates [(commitmentFields ws secret).flatten, (commitmentFields ws' secret').flatten] →
      createCommitment C ws secret = createCommitment C ws' secret' →
      (entryBits ws).Perm (entryBits ws')) ∧
    ¬ ∀ (C : Crypto) (uids uids' weights weights' : List UInt16) (salt salt' : Bytes),
      C.Separates [(mechanismFields uids weights salt).flatten,
        (mechanismFields uids' weights' salt').flatten] →
      mechanismHash C uids weights salt = mechanismHash C uids' weights' salt' →
      uids = uids' ∧ weights = weights' := by
  constructor
  · intro h
    have hpr := h sampleCrypto twoAssignments oneAssignment [] hiddenEntry (by decide +kernel)
      (by decide +kernel) (by decide +kernel) (by decide +kernel)
    exact absurd hpr.length_eq (by decide)
  · intro h
    have hs := h sampleCrypto [1, 3] [1] [2, 4] [3] [] (encodeU16 2 ++ encodeU16 4)
      (by decide +kernel) (by decide +kernel)
    exact absurd hs.1 (by decide)

end Platform.Epoch
