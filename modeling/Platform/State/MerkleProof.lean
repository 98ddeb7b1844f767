import Platform.Consensus.Validator
import Platform.Lib.Merkle

/-!
# Merkle proofs of the shared state (`state.rs`)

SHA-256 is any function `C.sha256`; what must not collide is said where it is used.
-/

namespace Platform.State
open Platform.Core Lib Consensus

/-- `path` is a list of `MerkleNode` -/
structure MerkleProof where
  root : Bytes32
  path : List (Merkle.Node Bytes32)

section
variable (C : Crypto)

def hashPair (left right : Bytes32) : Bytes32 := C.sha256 (left.bytes ++ right.bytes)

def computeMerkleRoot (leaves : List Bytes32) : Bytes32 :=
  match leaves with
  | [] => zeroHash
  | [leaf] => leaf
  | _ => (Merkle.reduce (hashPair C) leaves.length leaves).headD zeroHash

def verifyMerkleProof (leaf : Bytes32) (proof : MerkleProof) : Bool :=
  decide (Merkle.climb (hashPair C) leaf proof.path = proof.root)

def buildMerkleProof (leaves : List Bytes32) (leafIndex : Nat) : Option MerkleProof :=
  if leaves.length ≤ leafIndex ∨ leaves = [] then none
  else some ⟨computeMerkleRoot C leaves,
    Merkle.path (hashPair C) zeroHash leaves.length leaves leafIndex⟩

/-- how many levels a tree over `n` leaves has above them -/
def levelsAbove (n : Nat) : Nat := Nat.clog 2 n

end

section
variable {C : Crypto} {ls : List Bytes32}

theorem reduce_eq_root {i : Nat} (hi : i < ls.length) :
    Merkle.reduce (hashPair C) ls.length ls = [computeMerkleRoot C ls] := by
  have hrt := Merkle.climb_path (hashPair C) zeroHash (Nat.le_succ ls.length)
    (List.getElem?_eq_getElem hi)
  match ls with
  | [_] => rfl
  | _ :: _ :: _ =>
    rw [hrt]
    simp only [computeMerkleRoot, hrt, List.headD_cons]

end

/-- **Merkle proofs are complete**: there is one for every leaf, it has the root of the leaves and
one sibling for each level above them, and it verifies. -/
theorem merkle_complete (C : Crypto) (leaves : List Bytes32) (i : Nat) (hi : i < leaves.length) :
    ∃ proof, buildMerkleProof C leaves i = some proof ∧
      proof.root = computeMerkleRoot C leaves ∧
      proof.path.length = levelsAbove leaves.length ∧
      verifyMerkleProof C leaves[i] proof = true := by
  have hsm : ¬ (leaves.length ≤ i ∨ leaves = []) := by
    rintro (h | rfl)
    · omega
    · cases hi
  refine ⟨_, if_neg hsm, rfl, Merkle.length_path _ _ _ (Nat.le_succ _), decide_eq_true ?_⟩
  have hrt := Merkle.climb_path (hashPair C) zeroHash (Nat.le_succ leaves.length)
    (List.getElem?_eq_getElem hi)
  rw [reduce_eq_root hi] at hrt
  exact (List.singleton_inj.mp hrt).symm

theorem merkle_complete_third : ∃ proof,
    buildMerkleProof sampleCrypto [zeroHash, zeroHash, (Hotkey.ofByte 1).key] 2 = some proof ∧
      proof.path.length = levelsAbove 3 := by
  obtain ⟨proof, hb, -, hl, -⟩ :=
    merkle_complete sampleCrypto [zeroHash, zeroHash, (Hotkey.ofByte 1).key] 2 (by decide)
  exact ⟨proof, hb, hl⟩

/-- **Merkle proofs of full depth are sound**, if no pair that is hashed for the proof collides with
one that is hashed for the root. -/
theorem merkle_sound (C : Crypto) (leaves : List Bytes32) (hleaves : leaves ≠ []) (x : Bytes32)
    (proof : MerkleProof) (hroot : proof.root = computeMerkleRoot C leaves)
    (hdepth : proof.path.length = levelsAbove leaves.length)
    (hinj : ∀ p ∈ Merkle.combined (hashPair C) leaves.length leaves,
      ∀ q ∈ Merkle.climbed (hashPair C) x proof.path,
      hashPair C p.1 p.2 = hashPair C q.1 q.2 → p = q)
    (hverify : verifyMerkleProof C x proof = true) : x ∈ leaves := by
  refine Merkle.mem_of_climb (Nat.le_succ _) hdepth hinj ?_
  rw [reduce_eq_root (List.length_pos_iff.mpr hleaves), ← hroot]
  exact congrArg (fun root => [root]) (of_decide_eq_true hverify).symm

theorem merkle_sound_pair : zeroHash ∈ [zeroHash, (Hotkey.ofByte 1).key] :=
  merkle_sound sampleCrypto [zeroHash, (Hotkey.ofByte 1).key] (by simp) zeroHash
    ⟨computeMerkleRoot sampleCrypto [zeroHash, (Hotkey.ofByte 1).key],
      [⟨(Hotkey.ofByte 1).key, false⟩]⟩ rfl (by decide +kernel) (by decide +kernel)
    (by decide +kernel)

end Platform.State
