import Platform.Lib.Assoc

/-!
# Maps of bounded size

A map that holds at most `cap` entries takes in pairs one after the other (`Intake`): some keys are
passed over, the value under a key that is there may change, and a new key is taken in if its pair
is admitted and there is room.

* `Intake.mem_all`           which keys are there afterwards: the old ones, and of the new ones as
                             many as fit, in the order in which they came;
* `Intake.lookup_all_*`      the values.
-/

namespace Platform.Lib
open List HashMap AList

/-- how a map takes in pairs -/
structure Intake (κ υ ω : Type) where
  cap : Nat
  /-- keys that are passed over -/
  skip : κ → Bool
  /-- the new value under a key that is there, if it changes -/
  refresh : ω → υ → Option υ
  /-- whether a new key may be taken in -/
  admits : κ → ω → Bool
  /-- its value then -/
  fresh : κ → ω → υ

namespace Intake
variable {κ υ ω : Type} [DecidableEq κ] {f : Intake κ υ ω} {m m' : HashMap κ υ} {p : κ × ω}
  {l : List (κ × ω)} {k : κ} {v : υ} {w : ω}

def one (f : Intake κ υ ω) (m : HashMap κ υ) (p : κ × ω) : HashMap κ υ :=
  if f.skip p.1 then m
  else
    match m.lookup p.1 with
    | some v =>
      match f.refresh p.2 v with
      | some v' => m.insert p.1 v'
      | none => m
    | none =>
      if m.size < f.cap ∧ f.admits p.1 p.2 = true then m.insert p.1 (f.fresh p.1 p.2) else m

def all (f : Intake κ υ ω) (m : HashMap κ υ) (l : List (κ × ω)) : HashMap κ υ := l.foldl f.one m

/-- The pair is to be taken in. -/
def isNew (f : Intake κ υ ω) (m : HashMap κ υ) (p : κ × ω) : Bool :=
  !f.skip p.1 && decide (p.1 ∉ m) && f.admits p.1 p.2

/-- the new keys, in the order in which they come -/
def joining (f : Intake κ υ ω) (m : HashMap κ υ) (l : List (κ × ω)) : List κ :=
  (l.filter (f.isNew m)).map Prod.fst

/-- those of them for which there is room -/
def joined (f : Intake κ υ ω) (m : HashMap κ υ) (l : List (κ × ω)) : List κ :=
  (f.joining m l).take (f.cap - m.size)

theorem isNew_iff :
    f.isNew m p = true ↔ f.skip p.1 = false ∧ p.1 ∉ m ∧ f.admits p.1 p.2 = true := by
  simp [isNew, and_assoc]

theorem mem_joining : k ∈ f.joining m l ↔ ∃ w, (k, w) ∈ l ∧ f.isNew m (k, w) = true := by
  rw [joining, mem_map]
  constructor
  · intro h
    obtain ⟨⟨k', w⟩, hmem, rfl⟩ := h
    exact ⟨w, mem_filter.mp hmem⟩
  · intro h
    obtain ⟨w, hw⟩ := h
    exact ⟨(k, w), mem_filter.mpr hw, rfl⟩

theorem notMem_of_joining (h : k ∈ f.joining m l) : k ∉ m := by
  obtain ⟨w, -, hn⟩ := mem_joining.mp h
  exact (isNew_iff.mp hn).2.1

/-! ## one pair -/

theorem one_cases (f : Intake κ υ ω) (m : HashMap κ υ) (p : κ × ω) :
    (f.isNew m p = false ∧ (∀ k, k ∈ f.one m p ↔ k ∈ m) ∧ (f.one m p).size = m.size) ∨
    (f.isNew m p = true ∧ m.size < f.cap ∧ f.one m p = m.insert p.1 (f.fresh p.1 p.2)) ∨
    (f.isNew m p = true ∧ f.cap ≤ m.size ∧ f.one m p = m) := by
  unfold one isNew
  cases hsk : f.skip p.1 with
  | true => simp
  | false =>
    rw [if_neg (by simp)]
    cases hlk : m.lookup p.1 with
    | some v =>
      have hm := mem_of_lookup hlk
      left
      refine ⟨by simp [hm], ?_⟩
      dsimp only
      cases f.refresh p.2 v with
      | none => exact ⟨fun _ => Iff.rfl, rfl⟩
      | some v' =>
        refine ⟨?_, size_insert_of_mem hm v'⟩
        intro k
        rw [mem_insert]
        constructor
        · intro h
          rcases h with rfl | h
          · exact hm
          · exact h
        · exact .inr
    | none =>
      have hnt := lookup_eq_none.mp hlk
      dsimp only
      cases ha : f.admits p.1 p.2 with
      | false => simp
      | true =>
        by_cases hrm : m.size < f.cap
        · exact .inr (.inl ⟨by simp [hnt], hrm, if_pos ⟨hrm, rfl⟩⟩)
        · exact .inr (.inr ⟨by simp [hnt], Nat.not_lt.mp hrm, if_neg fun h => hrm h.1⟩)

theorem lookup_one_of_ne (h : k ≠ p.1) : (f.one m p).lookup k = m.lookup k := by
  unfold one
  split
  · rfl
  · split
    · split
      · exact lookup_insert_ne h
      · rfl
    · split
      · exact lookup_insert_ne h
      · rfl

/-! ## all pairs -/

theorem isNew_congr (h : p.1 ∈ m' ↔ p.1 ∈ m) : f.isNew m' p = f.isNew m p := by
  simp only [isNew, h]

theorem joining_congr (h : ∀ p ∈ l, p.1 ∈ m' ↔ p.1 ∈ m) : f.joining m' l = f.joining m l := by
  apply congrArg (map Prod.fst)
  apply filter_congr
  intro p hp
  exact isNew_congr (h p hp)

theorem joined_cons_of_old (ho : f.isNew m p = false) : f.joined m (p :: l) = f.joined m l := by
  rw [joined, joining, filter_cons_of_neg (by simp [ho])]
  rfl

theorem joined_cons_of_new (hp : p.1 ∉ l.map Prod.fst) (hn : f.isNew m p = true)
    (hrm : m.size < f.cap) (v : υ) :
    f.joined m (p :: l) = p.1 :: f.joined (m.insert p.1 v) l := by
  have hs : f.joining (m.insert p.1 v) l = f.joining m l := by
    apply joining_congr
    intro q hq
    rw [mem_insert]
    constructor
    · intro h
      rcases h with heq | h
      · exact absurd (heq ▸ mem_map_of_mem hq) hp
      · exact h
    · exact .inr
  have hcp : f.cap - m.size = f.cap - (m.size + 1) + 1 := by omega
  rw [joined, joined, hs, size_insert_of_notMem (isNew_iff.mp hn).2.1, hcp, joining,
    filter_cons_of_pos (by simp [hn])]
  rfl

theorem joined_of_full (h : f.cap ≤ m.size) : f.joined m l = [] := by
  rw [joined, Nat.sub_eq_zero_of_le h, take_zero]

theorem joined_one (hl : ((p :: l).map Prod.fst).Nodup) :
    f.joined m (p :: l) =
      if f.isNew m p = true ∧ m.size < f.cap then p.1 :: f.joined (f.one m p) l
      else f.joined (f.one m p) l := by
  rw [map_cons, nodup_cons] at hl
  rcases one_cases f m p with h | h | h
  · obtain ⟨ho, hm, hsz⟩ := h
    rw [if_neg (by simp [ho]), joined_cons_of_old ho, joined, joined, hsz,
      joining_congr fun q _ => hm q.1]
  · obtain ⟨hn, hrm, hon⟩ := h
    rw [if_pos ⟨hn, hrm⟩, hon, joined_cons_of_new hl.1 hn hrm]
  · obtain ⟨-, hfl, hon⟩ := h
    rw [if_neg fun h => absurd h.2 (by omega), hon, joined_of_full hfl, joined_of_full hfl]

theorem mem_one : k ∈ f.one m p ↔ k ∈ m ∨ (k = p.1 ∧ f.isNew m p = true ∧ m.size < f.cap) := by
  rcases one_cases f m p with h | h | h
  · simp [h.1, h.2.1]
  · rw [h.2.2]
    simp [h.1, h.2.1, or_comm]
  · rw [h.2.2]
    simp [Nat.not_lt.mpr h.2.1]

theorem mem_all (hl : (l.map Prod.fst).Nodup) : k ∈ f.all m l ↔ k ∈ m ∨ k ∈ f.joined m l := by
  induction l generalizing m with
  | nil => simp [all, joined, joining]
  | cons p l ih =>
    show k ∈ f.all (f.one m p) l ↔ _
    rw [ih (nodup_cons.mp hl).2, mem_one, joined_one hl]
    split
    · next h =>
      rw [mem_cons]
      tauto
    · next h =>
      tauto

theorem lookup_all_of_notMem (h : k ∉ l.map Prod.fst) : (f.all m l).lookup k = m.lookup k := by
  induction l generalizing m with
  | nil => rfl
  | cons p l ih =>
    rw [map_cons, mem_cons, not_or] at h
    show (f.all (f.one m p) l).lookup k = _
    rw [ih h.2, lookup_one_of_ne h.1]

theorem lookup_all_of_mem (hl : (l.map Prod.fst).Nodup) (hm : (k, w) ∈ l) :
    ∃ m', m'.lookup k = m.lookup k ∧ (f.all m l).lookup k = (f.one m' (k, w)).lookup k := by
  induction l generalizing m with
  | nil => cases hm
  | cons p l ih =>
    rw [map_cons, nodup_cons] at hl
    rcases mem_cons.mp hm with rfl | hm
    · exact ⟨m, rfl, lookup_all_of_notMem hl.1⟩
    · have hne : k ≠ p.1 := by
        intro heq
        exact hl.1 (heq ▸ mem_map_of_mem hm)
      obtain ⟨m', hm', ha⟩ := ih hl.2 hm
      exact ⟨m', hm'.trans (lookup_one_of_ne hne), ha⟩

theorem lookup_all_skipped (hl : (l.map Prod.fst).Nodup) (hsk : f.skip k = true) :
    (f.all m l).lookup k = m.lookup k := by
  by_cases hk : k ∈ l.map Prod.fst
  · obtain ⟨⟨k', w⟩, hmem, rfl⟩ := mem_map.mp hk
    obtain ⟨m', hm', ha⟩ := lookup_all_of_mem hl hmem
    rw [ha, one, if_pos hsk, hm']
  · exact lookup_all_of_notMem hk

theorem lookup_all_old (hl : (l.map Prod.fst).Nodup) (hm : (k, w) ∈ l)
    (hsk : f.skip k = false) (ho : m.lookup k = some v) :
    (f.all m l).lookup k = some ((f.refresh w v).getD v) := by
  obtain ⟨m', hm', ha⟩ := lookup_all_of_mem hl hm
  rw [ho] at hm'
  rw [ha, one]
  rw [if_neg (by simp [hsk]), hm']
  dsimp only
  cases f.refresh w v with
  | none => exact hm'
  | some v' => exact lookup_insert m'

theorem lookup_all_new (hl : (l.map Prod.fst).Nodup) (hm : (k, w) ∈ l)
    (hsk : f.skip k = false) (hn : m.lookup k = none) (hk : k ∈ f.all m l) :
    (f.all m l).lookup k = some (f.fresh k w) := by
  obtain ⟨m', hm', ha⟩ := lookup_all_of_mem hl hm
  rw [hn] at hm'
  rw [← lookup_isSome, ha] at hk
  rw [ha]
  revert hk
  rw [one]
  rw [if_neg (by simp [hsk]), hm']
  dsimp only
  split
  · intro _
    exact lookup_insert m'
  · intro hk
    rw [hm'] at hk
    cases hk

theorem nodup_joining (hl : (l.map Prod.fst).Nodup) : (f.joining m l).Nodup :=
  hl.sublist (filter_sublist.map _)

theorem size_all (hl : (l.map Prod.fst).Nodup) :
    (f.all m l).size = m.size + (f.joined m l).length := by
  have hnd : (f.joined m l).Nodup := (nodup_joining hl).sublist (take_sublist _ _)
  have hse : (f.all m l).keySet = m.keySet ∪ (f.joined m l).toFinset := by
    ext k
    rw [mem_keySet, mem_all hl, Finset.mem_union, mem_keySet, mem_toFinset]
  have hds : Disjoint m.keySet (f.joined m l).toFinset := by
    rw [Finset.disjoint_right]
    intro k hk hm
    exact notMem_of_joining (mem_of_mem_take (mem_toFinset.mp hk)) ((mem_keySet m k).mp hm)
  rw [← card_keySet, hse, Finset.card_union_of_disjoint hds, card_keySet,
    toFinset_card_of_nodup hnd]

/-! ## the order of the pairs -/

/-- All new keys fit, or none does. -/
def Settled (f : Intake κ υ ω) (m : HashMap κ υ) (l : List (κ × ω)) : Prop :=
  m.size + (f.joining m l).length ≤ f.cap ∨ f.cap ≤ m.size

theorem joined_of_fits (h : m.size + (f.joining m l).length ≤ f.cap) :
    f.joined m l = f.joining m l := by
  apply take_of_length_le
  omega

theorem joining_perm {l' : List (κ × ω)} (h : l.Perm l') :
    (f.joining m l).Perm (f.joining m l') := (h.filter _).map Prod.fst

theorem length_joined_perm {l' : List (κ × ω)} (h : l.Perm l') :
    (f.joined m l).length = (f.joined m l').length := by
  rw [joined, joined, length_take, length_take, (joining_perm h).length_eq]

theorem mem_joined_perm {l' : List (κ × ω)} (hsl : f.Settled m l) (h : l.Perm l') :
    k ∈ f.joined m l ↔ k ∈ f.joined m l' := by
  rcases hsl with hft | hfl
  · have hft' := hft
    rw [(joining_perm h).length_eq] at hft'
    rw [joined_of_fits hft, joined_of_fits hft', (joining_perm h).mem_iff]
  · rw [joined_of_full hfl, joined_of_full hfl]

theorem lookup_perm {l' : List (κ × ω)} (hl : (l.map Prod.fst).Nodup) (hsl : f.Settled m l)
    (h : l.Perm l') (k : κ) : (f.all m l).lookup k = (f.all m l').lookup k := by
  have hl' : (l'.map Prod.fst).Nodup := (h.map Prod.fst).nodup_iff.mp hl
  have hky : k ∈ f.all m l ↔ k ∈ f.all m l' := by
    rw [mem_all hl, mem_all hl', mem_joined_perm hsl h]
  by_cases hk : k ∈ l.map Prod.fst
  · obtain ⟨⟨k', w⟩, hmem, rfl⟩ := mem_map.mp hk
    have hm' := h.mem_iff.mp hmem
    cases hsk : f.skip k' with
    | true => rw [lookup_all_skipped hl hsk, lookup_all_skipped hl' hsk]
    | false =>
      cases ho : m.lookup k' with
      | some v => rw [lookup_all_old hl hmem hsk ho, lookup_all_old hl' hm' hsk ho]
      | none =>
        by_cases hin : k' ∈ f.all m l
        · rw [lookup_all_new hl hmem hsk ho hin, lookup_all_new hl' hm' hsk ho (hky.mp hin)]
        · rw [lookup_eq_none.mpr hin, lookup_eq_none.mpr fun h => hin (hky.mpr h)]
  · have hk' : k ∉ l'.map Prod.fst := fun h' => hk ((h.map Prod.fst).mem_iff.mpr h')
    rw [lookup_all_of_notMem hk, lookup_all_of_notMem hk']

variable {ws : HashMap κ ω}

theorem mem_joined_leading (hrm : m.size < f.cap) (hw : ws.lookup k = some w)
    (hn : f.isNew m (k, w) = true) : k ∈ f.joined m (ws.pairsBy (.leading k)) := by
  obtain ⟨rest, hr⟩ := pairsBy_leading hw
  have hcp : f.cap - m.size = f.cap - m.size - 1 + 1 := by omega
  rw [joined, joining, hr, filter_cons_of_pos (by simp [hn]), hcp]
  exact mem_cons_self

theorem notMem_joined_trailing (hw : ws.lookup k = some w) (hn : f.isNew m (k, w) = true)
    (hfw : f.cap - m.size < (f.joining m (ws.pairsBy (.trailing k))).length) :
    k ∉ f.joined m (ws.pairsBy (.trailing k)) := by
  have hnd := nodup_joining (f := f) (m := m) (nodup_pairsBy (m := ws) (.trailing k))
  obtain ⟨front, hfr⟩ := pairsBy_trailing hw
  have hls : f.joining m (ws.pairsBy (.trailing k)) = f.joining m front ++ [k] := by
    rw [joining, hfr, filter_append, filter_cons_of_pos (by simp [hn]), map_append]
    rfl
  rw [hls, length_append, length_singleton] at hfw
  rw [hls, nodup_append] at hnd
  rw [joined, hls, take_append_of_le_length (by omega)]
  intro hin
  exact hnd.2.2 k (mem_of_mem_take hin) k mem_cons_self rfl

/-- **The order of the pairs does not matter** to the map exactly if all new keys fit or none
does. -/
theorem order_iff (it₀ : Iteration κ) :
    (∀ it it' k, (f.all m (ws.pairsBy it)).lookup k = (f.all m (ws.pairsBy it')).lookup k) ↔
      f.Settled m (ws.pairsBy it₀) := by
  constructor
  · intro hs
    by_contra hnt
    rw [Settled, not_or] at hnt
    have hl : 0 < (f.joining m (ws.pairsBy it₀)).length := by omega
    obtain ⟨k, hk⟩ := exists_mem_of_length_pos hl
    have hnm := notMem_of_joining hk
    obtain ⟨w, hm, hn⟩ := mem_joining.mp hk
    have hw := mem_pairsBy.mp hm
    have hfw : f.cap - m.size < (f.joining m (ws.pairsBy (.trailing k))).length := by
      rw [(joining_perm (pairsBy_perm (.trailing k) it₀)).length_eq]
      omega
    have hin : k ∈ f.all m (ws.pairsBy (.leading k)) :=
      (mem_all (nodup_pairsBy _)).mpr (.inr (mem_joined_leading (by omega) hw hn))
    have ho : k ∉ f.all m (ws.pairsBy (.trailing k)) := by
      rw [mem_all (nodup_pairsBy _), not_or]
      exact ⟨hnm, notMem_joined_trailing hw hn hfw⟩
    rw [← lookup_isSome, hs (.leading k) (.trailing k) k, lookup_isSome] at hin
    exact ho hin
  · intro hsl it it' k
    have hof : ∀ it, (f.all m (ws.pairsBy it₀)).lookup k = (f.all m (ws.pairsBy it)).lookup k :=
      fun it => lookup_perm (nodup_pairsBy it₀) hsl (pairsBy_perm it₀ it) k
    rw [← hof it, ← hof it']

end Intake

end Platform.Lib
