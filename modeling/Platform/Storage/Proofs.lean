import Platform.Storage.ChallengeStore

/-!
# The proofs of a challenge store
-/

namespace Platform.Storage
open Platform.Core Lib Chain
open scoped Lib.Bytewise

section
variable {C : Crypto}

theorem computeMerkleRoot_eq {ls : List Bytes32} (h : ls ≠ []) :
    computeMerkleRoot C ls = (Merkle.reduce (hashPair C) ls.length ls).headD noHash := by
  match ls with
  | [] => exact absurd rfl h
  | [leaf] => rfl
  | _ :: _ :: _ => rfl

/-- **The two level loops agree**: the siblings that the proof builder collects lead to the root
that the root builder computes. -/
theorem verify_buildMerkleProof {leaves : List Bytes32} {i : Nat} {data : Bytes}
    (h : leaves[i]? = some (hashBytes C data)) :
    (buildMerkleProof C leaves i data).verify C data = true ∧
      (buildMerkleProof C leaves i data).root = computeMerkleRoot C leaves := by
  have hlt : i < leaves.length := (List.getElem?_eq_some_iff.mp h).1
  have hne : leaves ≠ [] := List.ne_nil_of_length_pos (by omega)
  have hb : buildMerkleProof C leaves i data =
      ⟨computeMerkleRoot C leaves, Merkle.path (hashPair C) noHash leaves.length leaves i, i,
        hashBytes C data⟩ := by
    unfold buildMerkleProof
    rw [if_neg (not_or.mpr ⟨hne, by omega⟩), List.getD_eq_getElem?_getD, h]
    rfl
  have hrt := Merkle.climb_path (hashPair C) noHash (Nat.le_succ leaves.length) h
  rw [hb]
  refine ⟨?_, rfl⟩
  show (if hashBytes C data ≠ hashBytes C data then false else decide (_ = _)) = true
  rw [if_neg (not_not.mpr rfl), computeMerkleRoot_eq hne, hrt]
  exact decide_eq_true rfl

/-- **One call**: its proof verifies for the bytes it stored, under the root of the state after. -/
theorem proof_of_next {σ sub ev wts : Type} {D : DistributedStore σ} {R : Records sub ev wts}
    {s : σ × ChallengeStore} {now : Int64} {op : StoreOp sub ev wts} {pf : MerkleProof}
    (h : (challengeNext C D R s (now, op)).1 = .ok pf) :
    ∃ data, op.bytes R = .ok data ∧ pf.verify C data = true ∧
      pf.root = (challengeNext C D R s (now, op)).2.2.computeStateRoot C := by
  rcases challengeNext_cases C D R s now op with
    ⟨err, -, hnx⟩ | ⟨data, hby, ⟨err, -, hnx⟩ | ⟨m, i, -, hi, hnx⟩⟩
  · rw [hnx] at h
    cases h
  · rw [hnx] at h
    cases h
  · rw [hnx] at h ⊢
    cases h
    have hlf := leaf_of_leafIndex hi
    have hne : (op.insertLeaf (hashBytes C data) s.2.leafCache).allLeaves ≠ [] := by
      intro hnl
      rw [hnl] at hlf
      cases hlf
    obtain ⟨hvr, hrt⟩ := verify_buildMerkleProof hlf
    refine ⟨data, hby, hvr, ?_⟩
    rw [hrt, ChallengeStore.computeStateRoot, if_neg hne]

end

/-- **Proofs match the state root.**  After any calls on a challenge store, over any inner store:
if the last one succeeds, its proof verifies for the bytes that were stored, and its root is the
state root computed right after. -/
theorem proofs_match_root {σ sub ev wts : Type} (C : Crypto) (D : DistributedStore σ)
    (R : Records sub ev wts) {s₀ s : σ × ChallengeStore}
    {l : List (Call (σ × ChallengeStore) (Int64 × StoreOp sub ev wts) (StorageResult MerkleProof))}
    {c : Call (σ × ChallengeStore) (Int64 × StoreOp sub ev wts) (StorageResult MerkleProof)}
    (hrun : MachineRun (challengeNext C D R) s₀ (l ++ [c]) s) {proof : MerkleProof}
    (hok : c.out = .ok proof) :
    ∃ data, c.input.2.bytes R = .ok data ∧ proof.verify C data = true ∧
      proof.root = s.2.computeStateRoot C := by
  obtain ⟨s₁, -, hc⟩ := hrun.snoc_inv
  rw [hc.after_eq]
  exact proof_of_next (hc.out_eq ▸ hok)

/-! ## a run -/

/-- Three leaves, one of which is stored again. -/
def storeSample : List (Int64 × StoreOp Bytes Bytes Bytes) :=
  [(0, .submission "b" [1]), (1, .weights 7 [2]), (2, .evaluation "b" "v" [3]),
    (3, .submission "b" [4])]

def storeTrace := trace (challengeNext sampleCrypto (localStore sampleCrypto) plainRecords)
  (.inMemory "node", .new "c") storeSample

theorem proofs_match_root_three : ∃ proof : MerkleProof,
    (storeTrace.1.map Call.out)[3]? = some (.ok proof) ∧
    proof.verify sampleCrypto [4] = true ∧
    proof.root = storeTrace.2.2.computeStateRoot sampleCrypto := by
  have hok : ((storeTrace.1.map Call.out).getD 3 (.error (.internal ""))).isOk = true := by
    decide +kernel
  obtain ⟨proof, hpr⟩ := exists_of_isOk hok
  obtain ⟨data, hdt, hvr, hrt⟩ := proofs_match_root sampleCrypto
    (localStore sampleCrypto) plainRecords (l := storeTrace.1.take 3)
    (machineRun_trace _ _ storeSample) hpr
  cases hdt
  exact ⟨proof, congrArg some hpr, hvr, hrt⟩

end Platform.Storage
