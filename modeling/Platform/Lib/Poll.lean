import Mathlib.Data.Finset.Card

/-!
# Polls

A poll keeps those who have voted yes and those who have voted no.  It closes at the first vote that
leaves one side with `r` votes or more; yes is looked at first.  Every voter has one opinion, and
the votes come in some order.

* `Poll.le_of_closes`, `Poll.closes_ne_none`   how a poll closes, from the sides after all votes;
* `Poll.exists_order`                          a side that can close an open poll does so in some
                                               order;
* `Poll.one_outcome_iff`                       an open poll closes in one way in all orders exactly
                                               when one side alone can close it.
-/

namespace Platform.Lib

/-- who has voted yes and who no -/
abbrev Poll (α : Type*) := Bool → Finset α

namespace Poll
variable {α : Type*} {r : Nat} {p : Poll α} {b : Bool}

/-! ## the verdict -/

def verdict (r : Nat) (p : Poll α) : Option Bool :=
  if r ≤ (p true).card then some true
  else if r ≤ (p false).card then some false
  else none

theorem le_of_verdict (h : verdict r p = some b) : r ≤ (p b).card := by
  unfold verdict at h
  split at h
  · next hy =>
    cases h
    exact hy
  · split at h
    · next hno =>
      cases h
      exact hno
    · cases h

theorem verdict_ne_none (h : r ≤ (p b).card) : verdict r p ≠ none := by
  unfold verdict
  split
  · simp
  · next hy =>
    split
    · simp
    · next hno =>
      cases b with
      | true => exact absurd h hy
      | false => exact absurd h hno

/-! ## one vote -/

variable [DecidableEq α]

/-- The last vote of a voter counts. -/
def vote (p : Poll α) (v : α) (b : Bool) : Poll α := fun side =>
  if side = b then insert v (p side) else (p side).erase v

def closes (r : Nat) (a : α → Bool) : Poll α → List α → Option Bool
  | _, [] => none
  | p, v :: l => ((p.vote v (a v)).verdict r).or (closes r a (p.vote v (a v)) l)

/-- Nobody in the poll has voted against the opinions. -/
def Follows (a : α → Bool) (p : Poll α) : Prop := ∀ b, ∀ v ∈ p b, a v = b

def after (a : α → Bool) (p : Poll α) (l : List α) : Poll α := fun b =>
  p b ∪ (l.filter fun v => a v = b).toFinset

variable {a : α → Bool} {l l' : List α}

variable (h : p.Follows a) (hl : l ≠ []) (v : α) (hb : r ≤ (after a p l b).card)

section
include h v

theorem vote_of_follows (b : Bool) :
    p.vote v (a v) b = if a v = b then insert v (p b) else p b := by
  unfold vote
  by_cases hb : a v = b
  · rw [if_pos hb, if_pos hb.symm]
  · rw [if_neg hb, if_neg (Ne.symm hb), Finset.erase_eq_of_notMem]
    intro hv
    exact hb (h b v hv)

theorem Follows.vote : (p.vote v (a v)).Follows a := by
  intro b w hw
  rw [vote_of_follows h] at hw
  split at hw
  · next hb =>
    rcases Finset.mem_insert.mp hw with rfl | hw
    · exact hb
    · exact h b w hw
  · exact h b w hw

theorem after_vote (l : List α) : after a (p.vote v (a v)) l = after a p (v :: l) := by
  funext b
  unfold after
  rw [vote_of_follows h]
  by_cases hb : a v = b
  · rw [if_pos hb, List.filter_cons_of_pos (by simpa using hb), List.toFinset_cons,
      Finset.insert_union, Finset.union_insert]
  · rw [if_neg hb, List.filter_cons_of_neg (by simpa using hb)]

end

theorem subset_after (a : α → Bool) (p : Poll α) (l : List α) (b : Bool) : p b ⊆ after a p l b :=
  Finset.subset_union_left

theorem after_perm (h : l.Perm l') (a : α → Bool) (p : Poll α) : after a p l = after a p l' := by
  funext b
  unfold after
  rw [List.toFinset_eq_of_perm _ _ (h.filter _)]

/-! ## all votes -/

omit [DecidableEq α] in
theorem ne_nil_of_perm (h : l.Perm l') (hl : l' ≠ []) : l ≠ [] := by
  intro hnl
  exact hl (hnl ▸ h).symm.eq_nil

theorem le_of_closes (h : p.Follows a) (hc : closes r a p l = some b) :
    r ≤ (after a p l b).card := by
  induction l generalizing p with
  | nil => cases hc
  | cons v l ih =>
    rw [← after_vote h]
    rw [closes, Option.or_eq_some_iff] at hc
    rcases hc with hc | ⟨_, hc⟩
    · exact (le_of_verdict hc).trans (Finset.card_le_card (subset_after a _ l b))
    · exact ih (h.vote v) hc

include h hl hb in
theorem closes_ne_none : closes r a p l ≠ none := by
  induction l generalizing p with
  | nil => exact absurd rfl hl
  | cons v l ih =>
    rw [← after_vote h] at hb
    rw [closes, ne_eq, Option.or_eq_none_iff]
    intro hn
    cases l with
    | nil =>
      refine verdict_ne_none (b := b) ?_ hn.1
      simpa [after] using hb
    | cons w l => exact ih (h.vote v) (List.cons_ne_nil w l) hb hn.2

include h hl hb in
theorem closes_of_only (hoh : (after a p l !b).card < r) : closes r a p l = some b := by
  cases hc : closes r a p l with
  | none => exact absurd hc (closes_ne_none h hl hb)
  | some b' =>
    have hle := le_of_closes h hc
    by_cases heq : b' = b
    · rw [heq]
    · rw [Bool.eq_not_of_ne heq] at hle
      omega

theorem closes_of_won (h : p.Follows a) (hl : l ≠ []) (hr : r ≤ (p true).card) :
    closes r a p l = some true := by
  cases l with
  | nil => exact absurd rfl hl
  | cons v l =>
    have hk : p true ⊆ p.vote v (a v) true := by
      rw [vote_of_follows h]
      split
      · exact Finset.subset_insert v _
      · exact Finset.Subset.refl _
    have hvr : (p.vote v (a v)).verdict r = some true :=
      if_pos (hr.trans (Finset.card_le_card hk))
    rw [closes, hvr, Option.some_or]

theorem closes_append (hc : closes r a p l = some b) : closes r a p (l ++ l') = some b := by
  induction l generalizing p with
  | nil => cases hc
  | cons v l ih =>
    rw [closes, Option.or_eq_some_iff] at hc
    rw [List.cons_append, closes, Option.or_eq_some_iff]
    exact hc.imp_right fun h => ⟨h.1, ih h.2⟩

theorem exists_order (h : p.Follows a) (ho : ∀ b, (p b).card < r)
    (hb : r ≤ (after a p l b).card) : ∃ l', l'.Perm l ∧ closes r a p l' = some b := by
  have how : after a p (l.filter fun v => a v = b) b = after a p l b := by
    unfold after
    simp
  have hoh : after a p (l.filter fun v => a v = b) (!b) = p !b := by
    unfold after
    rw [List.filter_filter, List.filter_eq_nil_iff.mpr]
    · simp
    · intro v _
      cases b <;> simp
  have hne : (l.filter fun v => a v = b) ≠ [] := by
    intro hnl
    have hn : after a p l b = p b := by
      unfold after
      rw [hnl]
      simp
    rw [hn] at hb
    exact absurd hb (by have := ho b; omega)
  refine ⟨_, List.filter_append_perm (fun v => a v = b) l, closes_append ?_⟩
  apply closes_of_only h hne
  · rw [how]
    exact hb
  · rw [hoh]
    exact ho !b

theorem one_outcome_iff (h : p.Follows a) (hl : l ≠ []) (ho : ∀ b, (p b).card < r) :
    (∀ l₁ l₂, l₁.Perm l → l₂.Perm l → ∃ b, closes r a p l₁ = some b ∧ closes r a p l₂ = some b) ↔
      Xor (r ≤ (after a p l true).card) (r ≤ (after a p l false).card) := by
  constructor
  · intro ha
    obtain ⟨b, hb, _⟩ := ha l l (.refl l) (.refl l)
    have hle := le_of_closes h hb
    -- the other side cannot close the poll in any order
    have hoh : ¬ r ≤ (after a p l !b).card := by
      intro hoh
      obtain ⟨l', hpr, hl'⟩ := exists_order h ho hoh
      obtain ⟨b', hb₁, hb₂⟩ := ha l l' (.refl l) hpr
      rw [hb, Option.some_inj] at hb₁
      rw [hl', Option.some_inj, ← hb₁] at hb₂
      cases b <;> cases hb₂
    cases b with
    | true => exact .inl ⟨hle, hoh⟩
    | false => exact .inr ⟨hle, hoh⟩
  · intro hon l₁ l₂ h₁ h₂
    have hdc : ∀ b, r ≤ (after a p l b).card → ¬ r ≤ (after a p l !b).card →
        ∀ l', l'.Perm l → closes r a p l' = some b := by
      intro b hb hoh l' hpr
      apply closes_of_only h (ne_nil_of_perm hpr hl)
      · rw [after_perm hpr]
        exact hb
      · rw [after_perm hpr]
        exact not_le.mp hoh
    rcases hon with ⟨hy, hno⟩ | ⟨hno, hy⟩
    · exact ⟨true, hdc true hy hno l₁ h₁, hdc true hy hno l₂ h₂⟩
    · exact ⟨false, hdc false hno hy l₁ h₁, hdc false hno hy l₂ h₂⟩

end Poll

end Platform.Lib
