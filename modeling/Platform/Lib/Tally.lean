import Mathlib.Data.Finset.Card

/-!
# Two ballots, one after the other

A counter of two ballots over the same voters with one threshold `q`.  The first ballot closes when
a new first vote brings it to `q`; the counter then casts its own second vote.  The result is
declared when a new SECOND vote arrives, the first ballot is closed and the second one is at `q`.
So nothing is declared by the vote that closes the first ballot, however many second votes are in.
-/

namespace Platform.Lib
open List

variable {α : Type*}

/-! ## votes -/

inductive Ballot (α : Type*) where
  | first (a : α)
  | second (a : α)

def Ballot.firstOf : Ballot α → Option α
  | .first a => some a
  | .second _ => none

def Ballot.secondOf : Ballot α → Option α
  | .first _ => none
  | .second a => some a

def firsts (l : List (Ballot α)) : List α := l.filterMap Ballot.firstOf
def seconds (l : List (Ballot α)) : List α := l.filterMap Ballot.secondOf

section
variable (l : List (Ballot α)) (a : α)

@[simp] theorem firsts_snoc_first : firsts (l ++ [.first a]) = firsts l ++ [a] := by
  rw [firsts, filterMap_append]
  rfl

@[simp] theorem firsts_snoc_second : firsts (l ++ [.second a]) = firsts l := by
  rw [firsts, filterMap_append]
  exact append_nil _

@[simp] theorem seconds_snoc_first : seconds (l ++ [.first a]) = seconds l := by
  rw [seconds, filterMap_append]
  exact append_nil _

@[simp] theorem seconds_snoc_second : seconds (l ++ [.second a]) = seconds l ++ [a] := by
  rw [seconds, filterMap_append]
  rfl

end

/-- every voter votes once in each ballot, and has not voted there before -/
structure Fresh (F S : Finset α) (l : List (Ballot α)) : Prop where
  firsts_nodup : (firsts l).Nodup
  firsts_new : ∀ a ∈ firsts l, a ∉ F
  seconds_nodup : (seconds l).Nodup
  seconds_new : ∀ a ∈ seconds l, a ∉ S

instance [DecidableEq α] (F S : Finset α) (l : List (Ballot α)) : Decidable (Fresh F S l) :=
  decidable_of_iff ((firsts l).Nodup ∧ (∀ a ∈ firsts l, a ∉ F) ∧ (seconds l).Nodup ∧
      ∀ a ∈ seconds l, a ∉ S)
    ⟨fun h => ⟨h.1, h.2.1, h.2.2.1, h.2.2.2⟩, fun h => ⟨h.1, h.2, h.3, h.4⟩⟩

theorem Fresh.init {F S : Finset α} {l : List (Ballot α)} {b : Ballot α}
    (h : Fresh F S (l ++ [b])) : Fresh F S l := by
  have hf : List.Sublist (firsts l) (firsts (l ++ [b])) := (sublist_append_left l [b]).filterMap _
  have hs : List.Sublist (seconds l) (seconds (l ++ [b])) := (sublist_append_left l [b]).filterMap _
  exact ⟨h.firsts_nodup.sublist hf, fun a ha => h.firsts_new a (hf.subset ha),
    h.seconds_nodup.sublist hs, fun a ha => h.seconds_new a (hs.subset ha)⟩

variable [DecidableEq α]

theorem union_toFinset_snoc (F : Finset α) (l : List α) (a : α) :
    F ∪ (l ++ [a]).toFinset = insert a (F ∪ l.toFinset) := by
  ext x
  simp only [Finset.mem_union, mem_toFinset, mem_append, mem_singleton, Finset.mem_insert]
  tauto

section
variable {F S : Finset α} {l : List (Ballot α)} {a : α}

theorem notMem_of_nodup_snoc {F : Finset α} {l : List α} {a : α} (hn : (l ++ [a]).Nodup)
    (hF : ∀ x ∈ l ++ [a], x ∉ F) : a ∉ F ∪ l.toFinset := by
  have hl : a ∉ l := fun ha => disjoint_of_nodup_append hn ha (mem_singleton.mpr rfl)
  rw [Finset.mem_union, mem_toFinset, not_or]
  exact ⟨hF a (mem_append_right _ (mem_singleton.mpr rfl)), hl⟩

theorem Fresh.notMem_first (h : Fresh F S (l ++ [.first a])) : a ∉ F ∪ (firsts l).toFinset := by
  have hn := h.firsts_nodup
  have hF := h.firsts_new
  rw [firsts_snoc_first] at hn hF
  exact notMem_of_nodup_snoc hn hF

theorem Fresh.notMem_second (h : Fresh F S (l ++ [.second a])) : a ∉ S ∪ (seconds l).toFinset := by
  have hn := h.seconds_nodup
  have hS := h.seconds_new
  rw [seconds_snoc_second] at hn hS
  exact notMem_of_nodup_snoc hn hS

end

/-! ## the counter -/

inductive Stage where
  | waiting
  | ready
  | declared
deriving DecidableEq

structure Tally (α : Type*) where
  first : Finset α
  second : Finset α
  stage : Stage

/-- one vote is counted; a voter who is already in is left out -/
def Tally.add (q : ℕ) (own : α) (t : Tally α) : Ballot α → Tally α
  | .first a =>
    if a ∈ t.first then t
    else if q ≤ (insert a t.first).card ∧ t.stage = .waiting then
      ⟨insert a t.first, insert own t.second, .ready⟩
    else { t with first := insert a t.first }
  | .second a =>
    if a ∈ t.second then t
    else if q ≤ (insert a t.second).card ∧ t.stage = .ready then
      ⟨t.first, insert a t.second, .declared⟩
    else { t with second := insert a t.second }

def Tally.count (q : ℕ) (own : α) (t : Tally α) (l : List (Ballot α)) : Tally α :=
  l.foldl (Tally.add q own) t

theorem Tally.count_snoc (q : ℕ) (own : α) (t : Tally α) (l : List (Ballot α)) (b : Ballot α) :
    t.count q own (l ++ [b]) = (t.count q own l).add q own b := by
  rw [Tally.count, foldl_append]
  rfl

/-! ## when the result is declared -/

/-- the votes `l` close the first ballot, in which the voters `F` are already counted -/
def Reached (q : ℕ) (F : Finset α) (l : List (Ballot α)) : Prop :=
  firsts l ≠ [] ∧ q ≤ (F ∪ (firsts l).toFinset).card

/-- a second vote of somebody else than `own` comes after the first ballot is closed -/
def Late (q : ℕ) (own : α) (F : Finset α) (l : List (Ballot α)) : Prop :=
  ∃ l₁ a l₂, l = l₁ ++ .second a :: l₂ ∧ a ≠ own ∧ Reached q F l₁

section
variable {q : ℕ} {own : α} {F S : Finset α} {l : List (Ballot α)}

theorem reached_snoc_second (a : α) : Reached q F (l ++ [.second a]) ↔ Reached q F l := by
  rw [Reached, Reached, firsts_snoc_second]

theorem reached_snoc_first (a : α) : Reached q F (l ++ [.first a]) ↔
    q ≤ (insert a (F ∪ (firsts l).toFinset)).card := by
  rw [Reached, firsts_snoc_first, union_toFinset_snoc]
  exact and_iff_right (append_ne_nil_of_right_ne_nil _ (cons_ne_nil a []))

theorem Reached.append (h : Reached q F l) (l' : List (Ballot α)) : Reached q F (l ++ l') := by
  have ha : firsts (l ++ l') = firsts l ++ firsts l' := filterMap_append
  rw [Reached, ha]
  refine ⟨append_ne_nil_of_left_ne_nil h.1 _, h.2.trans (Finset.card_le_card ?_)⟩
  rw [toFinset_append]
  exact Finset.union_subset_union_right Finset.subset_union_left

theorem Late.reached (h : Late q own F l) : Reached q F l := by
  obtain ⟨l₁, a, l₂, rfl, -, hr⟩ := h
  exact hr.append _

theorem late_snoc (b : Ballot α) : Late q own F (l ++ [b]) ↔
    Late q own F l ∨ ∃ a, b = .second a ∧ a ≠ own ∧ Reached q F l := by
  constructor
  · rintro ⟨l₁, a, l₂, he, hne, hr⟩
    rcases eq_nil_or_concat l₂ with rfl | ⟨l₃, c, rfl⟩
    · obtain ⟨rfl, hb⟩ := append_inj' he rfl
      exact Or.inr ⟨a, (cons.inj hb).1, hne, hr⟩
    · rw [concat_eq_append, ← cons_append, ← append_assoc] at he
      obtain ⟨rfl, -⟩ := append_inj' he rfl
      exact Or.inl ⟨l₁, a, l₃, rfl, hne, hr⟩
  · rintro (⟨l₁, a, l₂, rfl, hne, hr⟩ | ⟨a, rfl, hne, hr⟩)
    · exact ⟨l₁, a, l₂ ++ [b], by simp, hne, hr⟩
    · exact ⟨l, a, [], rfl, hne, hr⟩

/-- the counter after the votes `l`, when it started with `F` and `S` -/
structure TallyInv (q : ℕ) (own : α) (F S : Finset α) (l : List (Ballot α)) (t : Tally α) :
    Prop where
  first : t.first = F ∪ (firsts l).toFinset
  waiting : t.stage = .waiting → t.second = S ∪ (seconds l).toFinset ∧ ¬ Reached q F l
  ready : t.stage = .ready → t.second = insert own (S ∪ (seconds l).toFinset) ∧
    Reached q F l ∧ (Late q own F l → t.second.card < q)
  declared : t.stage = .declared → Late q own F l

theorem TallyInv.addFirst {t : Tally α} {a : α} (h : TallyInv q own F S l t)
    (hf : Fresh F S (l ++ [.first a])) :
    TallyInv q own F S (l ++ [.first a]) (t.add q own (.first a)) := by
  have hn : a ∉ t.first := by
    rw [h.first]
    exact hf.notMem_first
  have hfr : insert a t.first = F ∪ (firsts (l ++ [.first a])).toFinset := by
    rw [h.first, firsts_snoc_first, union_toFinset_snoc]
  have hrc : Reached q F (l ++ [.first a]) ↔ q ≤ (insert a t.first).card := by
    rw [reached_snoc_first, h.first]
  -- a first vote is never late
  have hlt : Late q own F (l ++ [.first a]) → Late q own F l := by
    intro hl
    rcases (late_snoc _).mp hl with hl | ⟨c, hc, -⟩
    · exact hl
    · cases hc
  rw [Tally.add, if_neg hn]
  by_cases hq : q ≤ (insert a t.first).card ∧ t.stage = .waiting
  · rw [if_pos hq]
    obtain ⟨hsc, hno⟩ := h.waiting hq.2
    refine ⟨hfr, fun hs => (nomatch hs), fun _ => ⟨?_, hrc.mpr hq.1, fun hl => ?_⟩,
      fun hs => (nomatch hs)⟩
    · rw [seconds_snoc_first, hsc]
    · exact absurd (hlt hl).reached hno
  · rw [if_neg hq]
    refine ⟨hfr, fun hs => ?_, fun hs => ?_, fun hs => ?_⟩
    · rw [seconds_snoc_first, hrc]
      exact ⟨(h.waiting hs).1, fun hle => hq ⟨hle, hs⟩⟩
    · rw [seconds_snoc_first]
      obtain ⟨hsc, hr, hc⟩ := h.ready hs
      exact ⟨hsc, hr.append _, fun hl => hc (hlt hl)⟩
    · exact (late_snoc _).mpr (Or.inl (h.declared hs))

theorem TallyInv.addSecond {t : Tally α} {a : α} (h : TallyInv q own F S l t)
    (hf : Fresh F S (l ++ [.second a])) :
    TallyInv q own F S (l ++ [.second a]) (t.add q own (.second a)) := by
  have hn := hf.notMem_second
  have hfr : t.first = F ∪ (firsts (l ++ [.second a])).toFinset := by
    rw [firsts_snoc_second]
    exact h.first
  have hsn : S ∪ (seconds (l ++ [.second a])).toFinset = insert a (S ∪ (seconds l).toFinset) := by
    rw [seconds_snoc_second, union_toFinset_snoc]
  have hk : t.stage = .declared → Late q own F (l ++ [.second a]) := fun hs =>
    (late_snoc _).mpr (Or.inl (h.declared hs))
  rw [Tally.add]
  by_cases hin : a ∈ t.second
  · -- only the counter's own second vote can be in already
    rw [if_pos hin]
    refine ⟨hfr, fun hs => ?_, fun hs => ?_, hk⟩
    · rw [(h.waiting hs).1] at hin
      exact absurd hin hn
    · obtain ⟨hsc, hr, hc⟩ := h.ready hs
      obtain rfl : a = own := by
        rw [hsc, Finset.mem_insert] at hin
        exact hin.resolve_right hn
      rw [hsn, Finset.insert_idem, reached_snoc_second]
      refine ⟨hsc, hr, fun hl => ?_⟩
      rcases (late_snoc _).mp hl with hl | ⟨c, hb, hne, -⟩
      · exact hc hl
      · cases hb
        exact absurd rfl hne
  · rw [if_neg hin]
    by_cases hq : q ≤ (insert a t.second).card ∧ t.stage = .ready
    · rw [if_pos hq]
      obtain ⟨hsc, hr, -⟩ := h.ready hq.2
      refine ⟨hfr, fun hs => (nomatch hs), fun hs => (nomatch hs), fun _ => ?_⟩
      refine (late_snoc _).mpr (Or.inr ⟨a, rfl, ?_, hr⟩)
      rintro rfl
      rw [hsc] at hin
      exact hin (Finset.mem_insert_self _ _)
    · rw [if_neg hq]
      refine ⟨hfr, fun hs => ?_, fun hs => ?_, hk⟩
      · obtain ⟨hsc, hno⟩ := h.waiting hs
        rw [hsn, reached_snoc_second]
        exact ⟨congrArg (insert a) hsc, hno⟩
      · obtain ⟨hsc, hr, -⟩ := h.ready hs
        rw [hsn, reached_snoc_second, Finset.insert_comm]
        refine ⟨congrArg (insert a) hsc, hr, fun _ => ?_⟩
        exact Nat.lt_of_not_le fun hle => hq ⟨hle, hs⟩

theorem tallyInv_count (hf : Fresh F S l) :
    TallyInv q own F S l (Tally.count q own ⟨F, S, .waiting⟩ l) := by
  -- on the list of votes, the last one taken off
  induction l using reverseRecOn with
  | nil =>
    refine ⟨?_, fun _ => ⟨?_, fun hr => hr.1 rfl⟩, fun hs => (nomatch hs), fun hs => (nomatch hs)⟩
    · exact (Finset.union_empty F).symm
    · exact (Finset.union_empty S).symm
  | append_singleton l b ih =>
    rw [Tally.count_snoc]
    cases b with
    | first a => exact (ih hf.init).addFirst hf
    | second a => exact (ih hf.init).addSecond hf

/-- **The result is declared exactly when a second vote is late**, given that the second votes, the
counter's own among them, reach the threshold. -/
theorem declared_iff (hf : Fresh F S l)
    (htt : q ≤ (insert own (S ∪ (seconds l).toFinset)).card) :
    (Tally.count q own ⟨F, S, .waiting⟩ l).stage = .declared ↔ Late q own F l := by
  have h : TallyInv q own F S l (Tally.count q own ⟨F, S, .waiting⟩ l) := tallyInv_count hf
  constructor
  · exact h.declared
  · intro hl
    cases hs : (Tally.count q own ⟨F, S, .waiting⟩ l).stage with
    | waiting => exact absurd hl.reached (h.waiting hs).2
    | ready =>
      obtain ⟨hsc, -, hc⟩ := h.ready hs
      have hlt := hc hl
      rw [hsc] at hlt
      omega
    | declared => rfl

end

end Platform.Lib
