import Mathlib.Data.List.Basic
import Mathlib.Data.Nat.Log

/-!
# Merkle trees level by level

A level is a list of nodes; the next one combines neighbours, and the last node of an odd level
with itself.  Two loops run over the levels: `reduce` goes up to the root, `path` collects the
siblings of one index on the way.

* `climb_path`, `length_path`   the siblings of an index lead to the root, one for each level;
* `mem_of_climb`   what climbs to the root through all levels is a leaf;
* `reduce_inj`   a root determines the leaves.
-/

namespace Platform.Lib.Merkle
open List

variable {α : Type} (combine : α → α → α)

/-- the nodes over a level -/
def nextLevel : List α → List α
  | [] => []
  | [a] => [combine a a]
  | a :: b :: level => combine a b :: nextLevel level

/-- the loop that goes up while there is more than one node, at most `fuel` times -/
def reduce : Nat → List α → List α
  | 0, level => level
  | fuel + 1, level => if 1 < level.length then reduce fuel (nextLevel combine level) else level

structure Node (α : Type) where
  sibling : α
  isLeft : Bool
deriving DecidableEq

/-- the place of the sibling in a level of `n` nodes; the last node of an odd level has itself -/
def siblingIndex (n index : Nat) : Nat :=
  if index % 2 = 0 then if index + 1 < n then index + 1 else index else index - 1

def path (junk : α) : Nat → List α → Nat → List (Node α)
  | 0, _, _ => []
  | fuel + 1, level, index =>
    if 1 < level.length then
      ⟨level.getD (siblingIndex level.length index) junk,
        decide (siblingIndex level.length index < index)⟩ ::
        path junk fuel (nextLevel combine level) (index / 2)
    else []

def climb (leaf : α) (siblings : List (Node α)) : α :=
  siblings.foldl (fun current node =>
    if node.isLeft then combine node.sibling current else combine current node.sibling) leaf

theorem length_nextLevel (lv : List α) : (nextLevel combine lv).length = (lv.length + 1) / 2 := by
  induction lv using nextLevel.induct with
  | case1 | case2 a => simp [nextLevel]
  | case3 a b lv ih =>
    show (nextLevel combine lv).length + 1 = (lv.length + 1 + 1 + 1) / 2
    omega

theorem getElem?_nextLevel (lv : List α) (i : Nat) :
    (nextLevel combine lv)[i]? = lv[2 * i]?.map fun a => combine a (lv[2 * i + 1]?.getD a) := by
  induction lv using nextLevel.induct generalizing i with
  | case1 => rfl
  | case2 a =>
    cases i with
    | zero => rfl
    | succ i => rfl
  | case3 a b lv ih =>
    cases i with
    | zero => rfl
    | succ i => exact ih i

theorem getElem?_parent {lv : List α} {index : Nat} {x : α} (junk : α)
    (hx : lv[index]? = some x) :
    (nextLevel combine lv)[index / 2]? = some (climb combine x
      [⟨lv.getD (siblingIndex lv.length index) junk,
        decide (siblingIndex lv.length index < index)⟩]) := by
  have hlt : index < lv.length := (List.getElem?_eq_some_iff.mp hx).1
  rw [getElem?_nextLevel]
  unfold siblingIndex climb
  by_cases hev : index % 2 = 0
  · have hlf : 2 * (index / 2) = index := by omega
    rw [hlf, hx, if_pos hev]
    by_cases hnx : index + 1 < lv.length
    · have hrg : ¬ index + 1 < index := by omega
      simp [if_pos hnx, getD_eq_getElem?_getD, getElem?_eq_getElem hnx, hrg]
    · -- the last node of an odd level
      have hn : lv[index + 1]? = none := getElem?_eq_none (by omega)
      simp [if_neg hnx, getD_eq_getElem?_getD, hx, hn]
  · have hlf : 2 * (index / 2) = index - 1 := by omega
    have hrg : index - 1 + 1 = index := by omega
    have hbn : index - 1 < lv.length := by omega
    have hil : index - 1 < index := by omega
    rw [hlf, hrg, hx, if_neg hev]
    simp [getD_eq_getElem?_getD, getElem?_eq_getElem hbn, hil]

/-- **The siblings of an index lead to the root**, if there is fuel for all levels. -/
theorem climb_path (junk : α) {x : α} {fuel : Nat} {lv : List α} {index : Nat}
    (hfl : lv.length ≤ fuel + 1) (hx : lv[index]? = some x) :
    reduce combine fuel lv = [climb combine x (path combine junk fuel lv index)] := by
  have hon : ∀ {lv : List α} {index : Nat} {x : α}, lv.length ≤ 1 →
      lv[index]? = some x → lv = [x] := by
    intro lv index x hl hx
    obtain ⟨hlt, hg⟩ := List.getElem?_eq_some_iff.mp hx
    obtain ⟨a, rfl⟩ := List.length_eq_one_iff.mp (show lv.length = 1 by omega)
    have hz : index = 0 := by omega
    subst hz
    rw [← hg]
    rfl
  induction fuel generalizing lv index x with
  | zero => exact hon hfl hx
  | succ fuel ih =>
    by_cases hl : 1 < lv.length
    · rw [reduce, path, if_pos hl, if_pos hl]
      have hsh : (nextLevel combine lv).length ≤ fuel + 1 := by
        rw [length_nextLevel]
        omega
      exact ih hsh (getElem?_parent combine junk hx)
    · rw [reduce, path, if_neg hl, if_neg hl]
      exact hon (Nat.not_lt.mp hl) hx

theorem length_path (junk : α) {fuel : Nat} {lv : List α} (index : Nat)
    (hfl : lv.length ≤ fuel + 1) :
    (path combine junk fuel lv index).length = Nat.clog 2 lv.length := by
  induction fuel generalizing lv index with
  | zero => exact (Nat.clog_of_right_le_one hfl 2).symm
  | succ fuel ih =>
    by_cases hl : 1 < lv.length
    · have hnx := length_nextLevel combine lv
      rw [path, if_pos hl, length_cons, ih _ (by omega), hnx,
        Nat.clog_of_two_le Nat.one_lt_two hl]
      rfl
    · rw [path, if_neg hl, Nat.clog_of_right_le_one (Nat.not_lt.mp hl)]
      rfl

/-! ## levels from their root -/

def pairsOf : List α → List (α × α)
  | [] => []
  | [a] => [(a, a)]
  | a :: b :: level => (a, b) :: pairsOf level

def combined : Nat → List α → List (α × α)
  | 0, _ => []
  | fuel + 1, level =>
    if 1 < level.length then pairsOf level ++ combined fuel (nextLevel combine level) else []

variable {combine}

theorem mem_nextLevel {y : α} {level : List α} (h : y ∈ nextLevel combine level) :
    ∃ p ∈ pairsOf level, combine p.1 p.2 = y ∧ p.1 ∈ level ∧ p.2 ∈ level := by
  induction level using nextLevel.induct with
  | case1 => cases h
  | case2 a => simp_all [nextLevel, pairsOf]
  | case3 a b level ih =>
    rcases mem_cons.mp h with rfl | h
    · exact ⟨(a, b), by simp [pairsOf]⟩
    · obtain ⟨p, hp, heq, h1, h2⟩ := ih h
      exact ⟨p, by simp [pairsOf, hp], heq, by simp [h1], by simp [h2]⟩

/-- the pair that a node makes with its sibling -/
def Node.pair (x : α) (node : Node α) : α × α :=
  if node.isLeft then (node.sibling, x) else (x, node.sibling)

variable (combine) in
/-- the pairs that are combined on the way up -/
def climbed : α → List (Node α) → List (α × α)
  | _, [] => []
  | x, node :: siblings =>
    node.pair x :: climbed (combine (node.pair x).1 (node.pair x).2) siblings

/-- **Only a leaf climbs to the root through all levels**, if its pairs collide with none of the
tree. -/
theorem mem_of_climb {x : α} {fuel : Nat} {level : List α} {siblings : List (Node α)}
    (hfl : level.length ≤ fuel + 1) (hl : siblings.length = Nat.clog 2 level.length)
    (hij : ∀ p ∈ combined combine fuel level, ∀ q ∈ climbed combine x siblings,
      combine p.1 p.2 = combine q.1 q.2 → p = q)
    (h : reduce combine fuel level = [climb combine x siblings]) : x ∈ level := by
  induction fuel generalizing level x siblings with
  | zero =>
    rw [Nat.clog_of_right_le_one hfl, length_eq_zero_iff] at hl
    subst hl
    rw [show level = [x] from h]
    exact mem_cons_self
  | succ fuel ih =>
    by_cases hm : 1 < level.length
    · have hnx := length_nextLevel combine level
      rw [Nat.clog_of_two_le Nat.one_lt_two hm] at hl
      obtain ⟨node, rest, rfl⟩ := exists_cons_of_length_eq_add_one hl
      rw [combined, if_pos hm] at hij
      rw [reduce, if_pos hm] at h
      have hstep : climb combine x (node :: rest) =
          climb combine (combine (node.pair x).1 (node.pair x).2) rest := by
        unfold climb Node.pair
        rw [foldl_cons]
        split <;> rfl
      -- the next node is in the next level, so it is made of two nodes of this one
      have hpr := ih (by omega) (by rw [hnx]; exact Nat.succ.inj hl)
        (fun p hp q hq => hij p (mem_append_right _ hp) q (mem_cons_of_mem _ hq))
        (h.trans (by rw [hstep]))
      obtain ⟨p, hp, heq, h1, h2⟩ := mem_nextLevel hpr
      obtain rfl := hij p (mem_append_left _ hp) _ mem_cons_self heq
      unfold Node.pair at h1 h2
      split at h1
      · simp_all
      · simp_all
    · rw [Nat.clog_of_right_le_one (Nat.not_lt.mp hm), length_eq_zero_iff] at hl
      subst hl
      rw [reduce, if_neg hm] at h
      rw [h]
      exact mem_cons_self

theorem nextLevel_inj {lv level' : List α} (hl : lv.length = level'.length)
    (hij : ∀ p ∈ pairsOf lv, ∀ q ∈ pairsOf level', combine p.1 p.2 = combine q.1 q.2 → p = q)
    (h : nextLevel combine lv = nextLevel combine level') : lv = level' := by
  induction lv using nextLevel.induct generalizing level' with
  | case1 => exact (length_eq_zero_iff.mp hl.symm).symm
  | case2 a =>
    obtain ⟨b, rfl⟩ := List.length_eq_one_iff.mp hl.symm
    have hn : combine a a = combine b b := (cons.inj h).1
    have hpr : (a, a) = (b, b) := hij (a, a) mem_cons_self (b, b) mem_cons_self hn
    rw [(Prod.mk.inj hpr).1]
  | case3 a b lv ih =>
    match level' with
    | [] => cases hl
    | [_] => cases hl
    | a' :: b' :: level' =>
      have hn : combine a b = combine a' b' := (cons.inj h).1
      have hpr : (a, b) = (a', b') := hij (a, b) mem_cons_self (a', b') mem_cons_self hn
      obtain ⟨rfl, rfl⟩ := Prod.mk.inj hpr
      have hr : lv = level' := by
        refine ih ?_ ?_ (cons.inj h).2
        · simp only [length_cons] at hl
          omega
        · intro p hp q hq
          exact hij p (mem_cons_of_mem _ hp) q (mem_cons_of_mem _ hq)
      rw [hr]

/-- **A root determines the leaves**, if their number is known and no two pairs collide. -/
theorem reduce_inj {fuel : Nat} {level level' : List α} (hl : level.length = level'.length)
    (hij : ∀ p ∈ combined combine fuel level, ∀ q ∈ combined combine fuel level',
      combine p.1 p.2 = combine q.1 q.2 → p = q)
    (h : reduce combine fuel level = reduce combine fuel level') : level = level' := by
  induction fuel generalizing level level' with
  | zero => exact h
  | succ fuel ih =>
    by_cases hm : 1 < level.length
    · have hm' : 1 < level'.length := by omega
      rw [combined, if_pos hm, combined, if_pos hm'] at hij
      rw [reduce, if_pos hm, reduce, if_pos hm'] at h
      have hnx : nextLevel combine level = nextLevel combine level' := by
        refine ih ?_ ?_ h
        · rw [length_nextLevel, length_nextLevel, hl]
        · intro p hp q hq
          exact hij p (mem_append_right _ hp) q (mem_append_right _ hq)
      refine nextLevel_inj hl ?_ hnx
      intro p hp q hq
      exact hij p (mem_append_left _ hp) q (mem_append_left _ hq)
    · have hfw' : ¬ 1 < level'.length := by omega
      rwa [reduce, if_neg hm, reduce, if_neg hfw'] at h

end Platform.Lib.Merkle
