import Platform.Lib.BigEndian
import Platform.Storage.Cluster

/-!
# The nearest peers

The distance of two ids is their `xor`, read as a number of 256 bits.
-/

namespace Platform.Storage
open Platform.Core Lib Chain List
open scoped Lib.Bytewise

/-- `d1.cmp(d2)` of arrays of bytes -/
def distanceCmp (d₁ d₂ : Bytes) : Ordering := compareOfLessAndEq d₁ d₂

def dist (x y : Bytes32) : Nat := beNat (xorDistance x y)

theorem length_xorDistance (x y : Bytes32) : (xorDistance x y).length = 32 := by
  rw [xorDistance, length_zipWith, x.len, y.len, Nat.min_self]

theorem distanceCmp_eq {x y : Bytes} (h : x.length = y.length) :
    distanceCmp x y = compare (beNat x) (beNat y) := by
  have heq : x = y ↔ beNat x = beNat y := ⟨congrArg beNat, beNat_inj h⟩
  show compareOfLessAndEq x y = compareOfLessAndEq (beNat x) (beNat y)
  simp only [compareOfLessAndEq, beNat_lt_iff h, heq]

theorem dist_comm (x y : Bytes32) : dist x y = dist y x :=
  congrArg beNat (zipWith_comm_of_comm fun a b => UInt8.xor_comm a b)

theorem dist_eq_zero_iff (x y : Bytes32) : dist x y = 0 ↔ x = y :=
  (beNat_xor_eq_zero_iff (x.len.trans y.len.symm)).trans ⟨Bytes32.bytes_inj, congrArg _⟩

theorem le_iff_dist {x y z : Bytes32} :
    xorDistance x z ≤ xorDistance y z ↔ dist x z ≤ dist y z := by
  rw [← not_lt, ← beNat_lt_iff, not_lt]
  · rfl
  · rw [length_xorDistance, length_xorDistance]

/-- how far a node is from the key -/
def nodeDist (C : Crypto) (keyHash : Bytes32) (node : DhtNode) : Nat :=
  dist (hashNodeId C node.id) keyHash

theorem findClosest_eq (C : Crypto) (table : RoutingTable) (keyHash : Bytes32) :
    ∃ sorted : List DhtNode,
    sorted.Perm table.nodes.values ∧
    sorted.Pairwise (fun a b => nodeDist C keyHash a ≤ nodeDist C keyHash b) ∧
    ∀ k, table.findClosest C keyHash k = sorted.take k := by
  have htt : Std.Total fun a b : DhtNode =>
      xorDistance (hashNodeId C a.id) keyHash ≤ xorDistance (hashNodeId C b.id) keyHash :=
    ⟨fun a b => le_total _ _⟩
  have htr : IsTrans DhtNode fun a b =>
      xorDistance (hashNodeId C a.id) keyHash ≤ xorDistance (hashNodeId C b.id) keyHash :=
    ⟨fun a b c => le_trans⟩
  exact ⟨_, perm_insertionSort _ _, (pairwise_insertionSort _ _).imp le_iff_dist.mp, fun k => rfl⟩

/-- **Nearest peers.**  The distance is a metric that is compared as a number, and `find_closest`
returns as many different nodes as it can, ordered by distance, with no closer node left out. -/
theorem nearest_peers (C : Crypto) :
    (∀ x y z : Bytes32, dist x y = dist y x ∧ (dist x y = 0 ↔ x = y) ∧
      dist x z ≤ dist x y + dist y z) ∧
    (∀ d e : Bytes32, distanceCmp d.bytes e.bytes = compare (beNat d.bytes) (beNat e.bytes)) ∧
    ∀ (table : RoutingTable) (keyHash : Bytes32) (k : Nat),
      (table.findClosest C keyHash k).length = min k table.nodes.size ∧
      ((table.findClosest C keyHash k).map DhtNode.id).Nodup ∧
      (table.findClosest C keyHash k).Pairwise
        (fun a b => nodeDist C keyHash a ≤ nodeDist C keyHash b) ∧
      (∀ a ∈ table.findClosest C keyHash k, a ∈ table.nodes.values) ∧
      ∀ b ∈ table.nodes.values, b ∉ table.findClosest C keyHash k →
        ∀ a ∈ table.findClosest C keyHash k, nodeDist C keyHash a ≤ nodeDist C keyHash b := by
  refine ⟨fun x y z => ⟨dist_comm x y, dist_eq_zero_iff x y, ?_⟩,
    fun d e => distanceCmp_eq (d.len.trans e.len.symm), fun table keyHash k => ?_⟩
  · exact beNat_xor_triangle (x.len.trans y.len.symm) (y.len.trans z.len.symm)
  · obtain ⟨sorted, hpr, hs, heq⟩ := findClosest_eq C table keyHash
    rw [heq k]
    have his : (sorted.map DhtNode.id).Nodup := by
      rw [(hpr.map DhtNode.id).nodup_iff, table.map_id_values]
      exact table.nodes.keys_nodup
    refine ⟨?_, (his.sublist ((take_sublist _ _).map _)), hs.sublist (take_sublist _ _),
      fun a ha => hpr.subset (mem_of_mem_take ha), fun b hb ho a ha => ?_⟩
    · rw [length_take, hpr.length_eq, HashMap.values, length_map]
      rfl
    · -- a node that was cut off comes after those that were taken
      rw [← take_append_drop k sorted, pairwise_append] at hs
      have hct : b ∈ sorted.take k ++ sorted.drop k := by
        rw [take_append_drop]
        exact hpr.symm.subset hb
      exact hs.2.2 a ha b ((mem_append.mp hct).resolve_left ho)

end Platform.Storage
