import Platform.Lib.Runs
import Mathlib.Data.List.Chain
import Mathlib.Order.BoundedOrder.Basic
import Mathlib.Order.Lattice

/-!
# A ladder of steps

Some values of an order are the steps of a ladder.  A position moves up over the steps above it,
each of which is done, and down again, which undoes them.  Going down can stop half way: the
position then stays where it was, although the steps above the place of the stop are undone.
-/

namespace Platform.Lib
open List

inductive Direction where
  | up
  | down
deriving DecidableEq

/-- Ups and downs in turn, an up first. -/
def Alternates (l : List Direction) : Prop := l.IsChain (· ≠ ·) ∧ l.head? ≠ some .down

theorem alternates_nil : Alternates [] := ⟨.nil, by simp⟩

theorem alternates_concat_up {l : List Direction} (h : Alternates l)
    (hls : l.getLast? ≠ some .up) : Alternates (l ++ [.up]) := by
  refine ⟨isChain_append.mpr ⟨h.1, .singleton _, ?_⟩, ?_⟩
  · intro x hx y hy
    cases hy
    intro heq
    exact hls (heq ▸ hx)
  · cases l with
    | nil => simp
    | cons x l => exact h.2

theorem alternates_concat_down {l : List Direction} (h : Alternates l)
    (hls : l.getLast? = some .up) : Alternates (l ++ [.down]) := by
  refine ⟨isChain_append.mpr ⟨h.1, .singleton _, ?_⟩, ?_⟩
  · intro x hx y hy
    cases hy
    rw [hls] at hx
    cases hx
    decide
  · cases l with
    | nil => cases hls
    | cons x l => exact h.2

/-- the position, the steps that are done, and what was done to each step -/
structure Ladder (V : Type*) where
  current : V
  applied : V → Prop
  history : V → List Direction

section
variable {V : Type*} [LinearOrder V] {reg : V → Prop} {a b v : V}

/-- the steps above `a` and not above `b` -/
def Between (reg : V → Prop) (a b v : V) : Prop := reg v ∧ a < v ∧ v ≤ b

/-- The steps between `a` and `b` were done, or undone. -/
structure Stepped (reg : V → Prop) (dir : Direction) (a b : V) (L L' : Ladder V) : Prop where
  applied : ∀ v, L'.applied v ↔
    if dir = .up then L.applied v ∨ Between reg a b v else L.applied v ∧ ¬ Between reg a b v
  touched : ∀ {v}, Between reg a b v → L'.history v = L.history v ++ [dir]
  other : ∀ {v}, ¬ Between reg a b v → L'.history v = L.history v

inductive LadderMove where
  | climb
  | descend
  /-- a way down that stopped, with what it has undone -/
  | stop (undid : Prop)

inductive Moves (reg : V → Prop) (L : Ladder V) : LadderMove → Ladder V → Prop
  | climb {L' : Ladder V} (hle : L.current ≤ L'.current)
      (h : Stepped reg .up L.current L'.current L L') : Moves reg L .climb L'
  | descend {L' : Ladder V} (hle : L'.current ≤ L.current)
      (h : Stepped reg .down L'.current L.current L L') : Moves reg L .descend L'
  | stop {L' : Ladder V} (b : V) (hsame : L'.current = L.current)
      (h : Stepped reg .down b L.current L L') :
      Moves reg L (.stop (∃ v, Between reg b L.current v)) L'

/-- The steps that are done are those not above the position, and each was done last. -/
structure Ladder.InStep (reg : V → Prop) (L : Ladder V) : Prop where
  alternates : ∀ v, Alternates (L.history v)
  last : ∀ v, L.applied v ↔ (L.history v).getLast? = some .up
  current : ∀ v, L.applied v ↔ reg v ∧ v ≤ L.current

/-! ## moves that keep step -/

variable {L L' L₀ : Ladder V}

theorem Stepped.up (h : Stepped reg .up a b L L') (v : V) :
    L'.applied v ↔ L.applied v ∨ Between reg a b v := h.applied v

theorem Stepped.down (h : Stepped reg .down a b L L') (v : V) :
    L'.applied v ↔ L.applied v ∧ ¬ Between reg a b v := h.applied v

theorem Ladder.InStep.climb (hL : L.InStep reg) (hle : L.current ≤ L'.current)
    (h : Stepped reg .up L.current L'.current L L') : L'.InStep reg := by
  -- a step above the position is not done, so its last move is not up
  have hbl : ∀ {v}, Between reg L.current L'.current v → (L.history v).getLast? ≠ some .up := by
    intro v hv hls
    have hdn := ((hL.current v).mp ((hL.last v).mpr hls)).2
    exact absurd hv.2.1 (not_lt.mpr hdn)
  refine ⟨?_, ?_, ?_⟩
  · intro v
    by_cases hv : Between reg L.current L'.current v
    · rw [h.touched hv]
      exact alternates_concat_up (hL.alternates v) (hbl hv)
    · rw [h.other hv]
      exact hL.alternates v
  · intro v
    rw [h.up]
    by_cases hv : Between reg L.current L'.current v
    · rw [h.touched hv, getLast?_concat]
      exact iff_of_true (.inr hv) rfl
    · rw [h.other hv, ← hL.last]
      exact or_iff_left hv
  · intro v
    rw [h.up, hL.current]
    constructor
    · rintro (⟨hrg, hv⟩ | hv)
      · exact ⟨hrg, hv.trans hle⟩
      · exact ⟨hv.1, hv.2.2⟩
    · intro ⟨hrg, hv⟩
      rcases le_or_gt v L.current with hlw | hh
      · exact .inl ⟨hrg, hlw⟩
      · exact .inr ⟨hrg, hh, hv⟩

theorem Ladder.InStep.descend (hL : L.InStep reg) (hle : L'.current ≤ L.current)
    (h : Stepped reg .down L'.current L.current L L') : L'.InStep reg := by
  -- a step below the position is done, so its last move is up
  have ha : ∀ {v}, Between reg L'.current L.current v → (L.history v).getLast? = some .up := by
    intro v hv
    exact (hL.last v).mp ((hL.current v).mpr ⟨hv.1, hv.2.2⟩)
  refine ⟨?_, ?_, ?_⟩
  · intro v
    by_cases hv : Between reg L'.current L.current v
    · rw [h.touched hv]
      exact alternates_concat_down (hL.alternates v) (ha hv)
    · rw [h.other hv]
      exact hL.alternates v
  · intro v
    rw [h.down]
    by_cases hv : Between reg L'.current L.current v
    · rw [h.touched hv, getLast?_concat]
      exact iff_of_false (fun han => han.2 hv) (by decide)
    · rw [h.other hv, ← hL.last]
      exact and_iff_left hv
  · intro v
    rw [h.down, hL.current]
    constructor
    · intro ⟨⟨hrg, hv⟩, hnt⟩
      refine ⟨hrg, ?_⟩
      by_contra hh
      exact hnt ⟨hrg, not_le.mp hh, hv⟩
    · intro ⟨hrg, hv⟩
      exact ⟨⟨hrg, hv.trans hle⟩, fun hbt => absurd hbt.2.1 (not_lt.mpr hv)⟩

theorem Ladder.InStep.stop (hL : L.InStep reg) (hs : L'.current = L.current)
    (hn : ¬ ∃ v, Between reg b L.current v) (h : Stepped reg .down b L.current L L') :
    L'.InStep reg := by
  have hoh : ∀ v, ¬ Between reg b L.current v := fun v hv => hn ⟨v, hv⟩
  have ha : ∀ v, L'.applied v ↔ L.applied v := by
    intro v
    rw [h.down]
    exact and_iff_left (hoh v)
  refine ⟨?_, ?_, ?_⟩
  · intro v
    rw [h.other (hoh v)]
    exact hL.alternates v
  · intro v
    rw [ha, h.other (hoh v)]
    exact hL.last v
  · intro v
    rw [ha, hs]
    exact hL.current v

/-! ## what is out of step stays so -/

/-- A step below the position is undone, or a step was done or undone twice in a row. -/
def Ladder.Broken (reg : V → Prop) (L : Ladder V) : Prop :=
  (∃ v, reg v ∧ v ≤ L.current ∧ ¬ L.applied v ∧ (L.history v).getLast? = some .down) ∨
    ∃ v, ¬ (L.history v).IsChain (· ≠ ·)

theorem Ladder.Broken.not_inStep (h : L.Broken reg) : ¬ L.InStep reg := by
  intro hL
  rcases h with ⟨v, hrg, hv, hnt, _⟩ | ⟨v, hv⟩
  · exact hnt ((hL.current v).mpr ⟨hrg, hv⟩)
  · exact hv (hL.alternates v).1

theorem broken_of_stop (hs : L'.current = L.current) (hu : ∃ v, Between reg b L.current v)
    (h : Stepped reg .down b L.current L L') : L'.Broken reg := by
  obtain ⟨v, hv⟩ := hu
  refine .inl ⟨v, hv.1, hs ▸ hv.2.2, ?_, ?_⟩
  · rw [h.down]
    exact fun ha => ha.2 hv
  · rw [h.touched hv, getLast?_concat]

theorem Stepped.not_chain {dir : Direction} (h : Stepped reg dir a b L L')
    (hv : ¬ (L.history v).IsChain (· ≠ ·)) : ¬ (L'.history v).IsChain (· ≠ ·) := by
  by_cases hbt : Between reg a b v
  · rw [h.touched hbt]
    exact fun hch => hv (isChain_append.mp hch).1
  · rw [h.other hbt]
    exact hv

theorem Stepped.undone_twice (h : Stepped reg .down a b L L')
    (hls : (L.history v).getLast? = some .down) (hv : Between reg a b v) : L'.Broken reg := by
  refine .inr ⟨v, ?_⟩
  rw [h.touched hv]
  intro hch
  exact (isChain_append.mp hch).2.2 .down hls .down rfl rfl

theorem Ladder.Broken.moves {m : LadderMove} (hL : L.Broken reg) (h : Moves reg L m L') :
    L'.Broken reg := by
  rcases hL with ⟨v, hrg, hv, hnt, hls⟩ | ⟨v, hv⟩
  · cases h with
    | climb hle h =>
      have hoh : ¬ Between reg L.current L'.current v := fun hb => absurd hb.2.1 (not_lt.mpr hv)
      refine .inl ⟨v, hrg, hv.trans hle, ?_, ?_⟩
      · rw [h.up]
        exact not_or.mpr ⟨hnt, hoh⟩
      · rw [h.other hoh, hls]
    | descend hle h =>
      by_cases hb : Between reg L'.current L.current v
      · exact h.undone_twice hls hb
      · have hlw : v ≤ L'.current := by
          by_contra hh
          exact hb ⟨hrg, not_le.mp hh, hv⟩
        refine .inl ⟨v, hrg, hlw, ?_, ?_⟩
        · rw [h.down]
          exact fun ha => hnt ha.1
        · rw [h.other hb, hls]
    | stop b hs h =>
      by_cases hb : Between reg b L.current v
      · exact h.undone_twice hls hb
      · refine .inl ⟨v, hrg, hs ▸ hv, ?_, ?_⟩
        · rw [h.down]
          exact fun ha => hnt ha.1
        · rw [h.other hb, hls]
  · cases h with
    | climb _ h | descend _ h | stop _ _ h => exact .inr ⟨v, h.not_chain hv⟩

/-! ## lists of steps

The steps that are taken one by one, in order, are those up to the last one taken. -/

theorem mem_iff_le_last {l₁ l₂ : List V} (hs : (l₁ ++ l₂).Pairwise (· < ·))
    (hb : l₁.getLast? = some b) : v ∈ l₁ ↔ v ∈ l₁ ++ l₂ ∧ v ≤ b := by
  obtain ⟨hpr, _, hps⟩ := pairwise_append.mp hs
  obtain ⟨l, rfl⟩ := getLast?_eq_some_iff.mp hb
  obtain ⟨_, _, hbl⟩ := pairwise_append.mp hpr
  have hm : b ∈ l ++ [b] := mem_append_right _ mem_cons_self
  constructor
  · intro hv
    refine ⟨mem_append_left _ hv, ?_⟩
    rcases mem_append.mp hv with hl | hl
    · exact (hbl v hl b mem_cons_self).le
    · exact (mem_singleton.mp hl).le
  · intro ⟨hv, hle⟩
    rcases mem_append.mp hv with hl | hl
    · exact hl
    · exact absurd (hps b hm v hl) (not_lt.mpr hle)

theorem mem_iff_lt_stop {l₁ l₂ : List V} (hs : (l₁ ++ b :: l₂).Pairwise (· > ·)) :
    v ∈ l₁ ↔ v ∈ l₁ ++ b :: l₂ ∧ b < v := by
  obtain ⟨_, hps, ha⟩ := pairwise_append.mp hs
  constructor
  · intro hv
    exact ⟨mem_append_left _ hv, ha v hv b mem_cons_self⟩
  · intro ⟨hv, hlt⟩
    rcases mem_append.mp hv with hl | hl
    · exact hl
    · rcases mem_cons.mp hl with heq | hl
      · exact absurd hlt (heq ▸ lt_irrefl _)
      · exact absurd (rel_of_pairwise_cons hps hl) (not_lt.mpr hlt.le)

/-! ## runs -/

/-- The way down stopped after it had undone something. -/
def LadderMove.CutShort : LadderMove → Prop
  | stop undid => undid
  | _ => False

variable [OrderBot V]

/-- nothing done yet -/
structure Ladder.Fresh (L : Ladder V) : Prop where
  current : L.current = ⊥
  applied : ∀ v, ¬ L.applied v
  history : ∀ v, L.history v = []

theorem not_applied_bot {ms : List LadderMove} (h₀ : L₀.Fresh) (hrun : Run (Moves reg) L₀ ms L) :
    ¬ L.applied ⊥ := by
  refine Run.invariant (P := fun L : Ladder V => ¬ L.applied ⊥) (h₀.applied ⊥) ?_ hrun
  intro L m L' hL hm
  have hnt : ∀ a b : V, ¬ Between reg a b ⊥ := fun a b hb => not_lt_bot hb.2.1
  cases hm with
  | climb _ h =>
    rw [h.up]
    exact not_or.mpr ⟨hL, hnt _ _⟩
  | descend _ h | stop _ _ h =>
    rw [h.down]
    exact fun ha => hL ha.1

/-- **Runs in step**: no step is at the bottom, and no way down was cut short. -/
theorem inStep_iff_of_run {ms : List LadderMove} (h₀ : L₀.Fresh)
    (hrun : Run (Moves reg) L₀ ms L) :
    L.InStep reg ↔ ¬ reg ⊥ ∧ ∀ m ∈ ms, ¬ m.CutShort := by
  constructor
  · intro hL
    refine ⟨fun hrg => ?_, ?_⟩
    · exact not_applied_bot h₀ hrun ((hL.current ⊥).mpr ⟨hrg, bot_le⟩)
    · intro m hm hct
      obtain ⟨_, _, L₁, L₂, _, _, hmv, hr⟩ := hrun.mem_split hm
      have hbr : L₂.Broken reg := by
        cases hmv with
        | climb _ _ | descend _ _ => cases hct
        | stop b hs h => exact broken_of_stop hs hct h
      have hen : L.Broken reg := Run.invariant hbr (fun _ _ _ hL hmv => hL.moves hmv) hr
      exact hen.not_inStep hL
  · intro ⟨hbt, hct⟩
    refine Run.guarded ?_ ?_ hrun hct
    · refine ⟨?_, ?_, ?_⟩
      · intro v
        rw [h₀.history]
        exact alternates_nil
      · intro v
        rw [h₀.history]
        exact iff_of_false (h₀.applied v) (by simp)
      · intro v
        refine iff_of_false (h₀.applied v) ?_
        intro ⟨hrg, hv⟩
        rw [h₀.current, le_bot_iff] at hv
        exact hbt (hv ▸ hrg)
    · intro L m L' hL hg hmv
      cases hmv with
      | climb hle h => exact hL.climb hle h
      | descend hle h => exact hL.descend hle h
      | stop b hs h => exact hL.stop hs hg h

end

end Platform.Lib
