import Platform.Consensus.Validator
import Platform.Lib.Sorting
import Mathlib.Data.Nat.ModEq

/-!
# The rotation of leaders

The leader of a view is read off the list of active validators in the order of their stakes, at the
view modulo its length.

* `leader_rotation`   as many views as there are active validators name each of them once, the
                      order of the list does not depend on the map, and `next_leader_view` is the
                      next view that the node leads.
-/

namespace Platform.Lib

/-- The next number `p` modulo `n`, from `v` on. -/
theorem next_congruent {n p : ℕ} (hp : p < n) (v : ℕ) :
    (v + (p + n - v % n) % n) % n = p ∧ ∀ w, v ≤ w → w % n = p → v + (p + n - v % n) % n ≤ w := by
  have hn : 0 < n := Nat.zero_lt_of_lt hp
  have hsm : (v + (p + n - v % n) % n) % n = p := by
    have hlt := Nat.mod_lt v hn
    rw [Nat.add_mod_mod, ← Nat.mod_add_mod, show v % n + (p + n - v % n) = p + n by omega,
      Nat.add_mod_right, Nat.mod_eq_of_lt hp]
  refine ⟨hsm, fun w hle hw => ?_⟩
  obtain ⟨e, rfl⟩ := Nat.exists_eq_add_of_le hle
  -- both distances are the same modulo `n`, and the first one is below `n`
  have hm : e % n = (p + n - v % n) % n % n := Nat.ModEq.add_left_cancel' v (hw.trans hsm.symm)
  rw [Nat.mod_mod] at hm
  exact Nat.add_le_add_left (hm ▸ Nat.mod_le e n) v

end Platform.Lib

namespace Platform.Consensus
open Lib Platform.Core

namespace ValidatorSet
variable (vs : ValidatorSet) (now : Int)

def nextLeaderView (currentView : ViewNumber) : Option ViewNumber :=
  let validators := vs.validatorsByStake now
  match validators.findIdx? fun v => decide (v.hotkey = vs.localKeypair.hotkey) with
  | none => none
  | some ourPosition =>
    let currentPosition := currentView.toNat % validators.length
    if currentPosition ≤ ourPosition then
      some (currentView + .ofNat (ourPosition - currentPosition))
    else some (currentView + .ofNat (validators.length - currentPosition + ourPosition))

instance : Std.Total stakeBefore where
  total a b := by
    rcases Std.lt_trichotomy a.stake b.stake with h | h | h
    · exact .inr (.inl h)
    · exact (List.le_total a.hotkey.key.bytes b.hotkey.key.bytes).imp (fun hle => .inr ⟨h, hle⟩)
        fun hle => .inr ⟨h.symm, hle⟩
    · exact .inl (.inl h)

instance : IsTrans ValidatorRecord stakeBefore where
  trans a b c := by
    rintro (hab | ⟨hab, hab'⟩) (hbc | ⟨hbc, hbc'⟩)
    · exact .inl (UInt64.lt_trans hbc hab)
    · exact .inl (hbc ▸ hab)
    · exact .inl (hab ▸ hbc)
    · exact .inr ⟨hab.trans hbc, List.le_trans hab' hbc'⟩

/-- A tie is a common hotkey. -/
theorem hotkey_of_ties {a b : ValidatorRecord} (hab : stakeBefore a b) (hba : stakeBefore b a) :
    a.hotkey = b.hotkey := by
  have hby : a.hotkey.key.bytes = b.hotkey.key.bytes := by
    rcases hab with h | ⟨h, hle⟩
    · rcases hba with h' | ⟨h', -⟩
      · exact absurd h' (UInt64.lt_asymm h)
      · exact absurd (h' ▸ h) (UInt64.lt_irrefl _)
    · rcases hba with h' | ⟨-, hge⟩
      · exact absurd (h ▸ h') (UInt64.lt_irrefl _)
      · exact List.le_antisymm hle hge
  exact congrArg Hotkey.mk (Bytes32.bytes_inj hby)

theorem validatorsByStake_perm : (vs.validatorsByStake now).Perm (vs.activeValidators now) :=
  List.perm_insertionSort _ _

/-- The order does not depend on the order in which the map is read. -/
theorem validatorsByStake_of_perm {l : List ValidatorRecord}
    (hl : l.Perm (vs.activeValidators now)) :
    l.insertionSort stakeBefore = vs.validatorsByStake now := by
  refine insertionSort_eq_of_perm hl fun a ha b hb hab hba => ?_
  exact List.inj_on_of_nodup_map (vs.activeHotkeys_nodup now) (hl.subset ha) (hl.subset hb)
    (hotkey_of_ties hab hba)

/-- the active hotkeys in the order of their turns -/
def turns : List Hotkey := (vs.validatorsByStake now).map ValidatorRecord.hotkey

theorem turns_perm : (vs.turns now).Perm ((vs.activeValidators now).map ValidatorRecord.hotkey) :=
  (vs.validatorsByStake_perm now).map _

theorem length_turns : (vs.turns now).length = vs.activeCount now := by
  rw [(vs.turns_perm now).length_eq, List.length_map, activeCount]

theorem leaderForView_eq (view : ViewNumber) :
    vs.leaderForView now view = (vs.turns now)[view.toNat % vs.activeCount now]? := by
  rw [leaderForView, turns, List.getElem?_map, ← length_turns, turns, List.length_map]

theorem toNat_later {v : ViewNumber} {i : ℕ} (h : v.toNat + i < 2 ^ 64) :
    (v + UInt64.ofNat i).toNat = v.toNat + i := by
  rw [UInt64.toNat_add, UInt64.toNat_ofNat_of_lt' (by simp [UInt64.size]; omega)]
  exact Nat.mod_eq_of_lt h

/-- The leaders from the view `v` on are the list of turns, rotated. -/
theorem leaders_eq_rotate (v : ViewNumber) (hv : v.toNat + vs.activeCount now < 2 ^ 64) :
    ((List.range (vs.activeCount now)).map fun i => vs.leaderForView now (v + .ofNat i)) =
      ((vs.turns now).rotate v.toNat).map some := by
  apply List.ext_getElem
  · simp [length_turns]
  · intro i hi _
    have hlt : i < vs.activeCount now := by simpa using hi
    have hm : (v.toNat + i) % vs.activeCount now < (vs.turns now).length := by
      rw [length_turns]
      exact Nat.mod_lt _ (by omega)
    rw [List.getElem_map, List.getElem_range, leaderForView_eq, toNat_later (by omega),
      List.getElem?_eq_getElem hm, List.getElem_map, List.getElem_rotate]
    simp only [length_turns, Nat.add_comm i]

/-- Where a hotkey stands in the list of turns decides which views it leads. -/
theorem leaderForView_iff {k : Hotkey} {p : ℕ} (hp : (vs.turns now)[p]? = some k)
    (view : ViewNumber) :
    vs.leaderForView now view = some k ↔ view.toNat % vs.activeCount now = p := by
  rw [leaderForView_eq, ← hp]
  constructor
  · intro h
    have hlt := (List.getElem?_eq_some_iff.mp hp).1
    have hnd := (vs.turns_perm now).nodup_iff.mpr (vs.activeHotkeys_nodup now)
    exact ((List.getElem?_inj hlt hnd).mp h.symm).symm
  · exact fun h => h ▸ rfl

theorem nextLeaderView_eq (v : ViewNumber) (hlc : vs.localKeypair.hotkey ∈ vs.turns now) :
    ∃ p, (vs.turns now)[p]? = some vs.localKeypair.hotkey ∧ vs.nextLeaderView now v =
      some (v + .ofNat ((p + vs.activeCount now - v.toNat % vs.activeCount now) %
        vs.activeCount now)) := by
  have hl : (vs.validatorsByStake now).length = vs.activeCount now :=
    (vs.validatorsByStake_perm now).length_eq
  cases hfn : (vs.validatorsByStake now).findIdx?
      (fun r => decide (r.hotkey = vs.localKeypair.hotkey)) with
  | none =>
    obtain ⟨r, hr, hk⟩ := List.mem_map.mp hlc
    simpa [hk] using List.findIdx?_eq_none_iff.mp hfn r hr
  | some p =>
    obtain ⟨hlt, hk, -⟩ := List.findIdx?_eq_some_iff_getElem.mp hfn
    refine ⟨p, ?_, ?_⟩
    · rw [turns, List.getElem?_map, List.getElem?_eq_getElem hlt, Option.map_some,
        of_decide_eq_true hk]
    · rw [hl] at hlt
      simp only [nextLeaderView, hfn, hl]
      have hc := Nat.mod_lt v.toNat (Nat.zero_lt_of_lt hlt)
      generalize v.toNat % vs.activeCount now = c at hc
      split
      case isTrue hle =>
        rw [show p + vs.activeCount now - c = p - c + vs.activeCount now by omega,
          Nat.add_mod_right, Nat.mod_eq_of_lt (by omega)]
      case isFalse hle =>
        rw [Nat.mod_eq_of_lt (by omega), show p + vs.activeCount now - c =
          vs.activeCount now - c + p by omega]

/-- **The leaders rotate.** -/
theorem leader_rotation (v : ViewNumber) (hv : v.toNat + vs.activeCount now < 2 ^ 64) :
    ((List.range (vs.activeCount now)).map fun i => vs.leaderForView now (v + .ofNat i)).Perm
      ((vs.activeValidators now).map fun r => some r.hotkey) ∧
    (∀ m : HashMap Hotkey ValidatorRecord, m.entries.Perm vs.validators.entries →
      (m.values.filter (vs.active now)).insertionSort stakeBefore = vs.validatorsByStake now) ∧
    (vs.localKeypair.hotkey ∈ vs.activeHotkeys now → ∃ w, vs.nextLeaderView now v = some w ∧
      v ≤ w ∧ vs.amILeader now w = true ∧ ∀ w', v ≤ w' → vs.amILeader now w' = true → w ≤ w') := by
  refine ⟨?_, fun m hm => ?_, fun hlc => ?_⟩
  · rw [leaders_eq_rotate vs now v hv, ← Function.comp_def some, ← List.map_map]
    exact ((List.rotate_perm _ _).trans (vs.turns_perm now)).map some
  · exact vs.validatorsByStake_of_perm now ((hm.map _).filter _)
  · have hmm : vs.localKeypair.hotkey ∈ vs.turns now :=
      (vs.turns_perm now).mem_iff.mpr (List.mem_toFinset.mp hlc)
    obtain ⟨p, hp, hnx⟩ := vs.nextLeaderView_eq now v hmm
    have hlt := (List.getElem?_eq_some_iff.mp hp).1
    rw [length_turns] at hlt
    obtain ⟨hcn, hls⟩ := next_congruent hlt v.toNat
    have hd := Nat.mod_lt (p + vs.activeCount now - v.toNat % vs.activeCount now)
      (Nat.zero_lt_of_lt hlt)
    refine ⟨_, hnx, ?_⟩
    generalize (p + vs.activeCount now - v.toNat % vs.activeCount now) % vs.activeCount now = d
      at hcn hls hd
    have hw : (v + UInt64.ofNat d).toNat = v.toNat + d := toNat_later (by omega)
    simp only [amILeader, isLeader, decide_eq_true_eq, vs.leaderForView_iff now hp,
      UInt64.le_iff_toNat_le, hw]
    exact ⟨Nat.le_add_right _ _, hcn, fun w' => hls w'.toNat⟩

/-- Four validators of equal stake, from view 6 on: node 1 leads the views 9 and 13. -/
theorem leader_rotation_four :
    ((List.range 4).map fun i => (sample 1 4).leaderForView 0 (6 + .ofNat i)).Perm
      (((sample 1 4).activeValidators 0).map fun r => some r.hotkey) ∧
    (sample 1 4).nextLeaderView 0 6 = some 9 :=
  ⟨(leader_rotation (sample 1 4) 0 6 (by decide +kernel)).1, by decide +kernel⟩

end ValidatorSet

end Platform.Consensus
