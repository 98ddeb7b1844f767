import Platform.Lib.Assoc
import Mathlib.Data.List.Sort

/-!
# Time windows

Two ways in which old entries are forgotten.

* `recent now w q`   a queue of times, oldest first, without the times at its front that are more
                     than `w` before `now`;
* `unexpired now w m`   a table of times without those that are `w` or more before `now`.

When the queue is sorted, `recent` keeps exactly the times in the window (`recent_eq_filter`).
-/

namespace Platform.Lib

/-- `while front is older than w { pop_front }` -/
def recent (now w : Int) (q : List Int) : List Int := q.dropWhile fun t => decide (now - t > w)

theorem recent_sublist (now w : Int) (q : List Int) : (recent now w q).Sublist q :=
  List.dropWhile_sublist _

theorem recent_eq_filter {now w : Int} {q : List Int} (hq : q.Pairwise (· ≤ ·)) :
    recent now w q = q.filter fun t => decide (now - t ≤ w) := by
  induction q with
  | nil => rfl
  | cons t q ih =>
    obtain ⟨hle, hq⟩ := List.pairwise_cons.mp hq
    unfold recent
    by_cases h : now - t > w
    · have ho : ¬ decide (now - t ≤ w) = true := by
        rw [decide_eq_true_iff]
        omega
      rw [List.dropWhile_cons, if_pos (decide_eq_true h), List.filter_cons, if_neg ho]
      exact ih hq
    · -- the oldest time is in the window, hence all of them are
      have hn : ¬ decide (now - t > w) = true := by rwa [decide_eq_true_iff]
      rw [List.dropWhile_cons, if_neg hn]
      refine (List.filter_eq_self.mpr fun t' ht' => decide_eq_true ?_).symm
      rcases List.mem_cons.mp ht' with rfl | ht'
      · omega
      · have := hle t' ht'
        omega

section
variable {κ : Type} [DecidableEq κ]

def unexpired (now w : Int) (m : HashMap κ Int) : HashMap κ Int :=
  m.retain fun _ t => decide (now - t < w)

theorem lookup_unexpired_iff (now w : Int) (m : HashMap κ Int) (k : κ) (t : Int) :
    (unexpired now w m).lookup k = some t ↔ m.lookup k = some t ∧ now - t < w := by
  unfold unexpired
  rw [HashMap.lookup_retain_iff, decide_eq_true_iff]

end

end Platform.Lib
