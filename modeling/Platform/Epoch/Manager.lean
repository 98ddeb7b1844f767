import Platform.Lib.Machine

/-!
# The epoch manager (`crates/epoch/src/manager.rs`)

The manager hears the numbers of new blocks and keeps the epoch and the phase that the chain is in.
`epoch_for_block` and `phase_for_block` compute both from a block number alone.

`u64` arithmetic wraps, as in a release build; a division by zero panics in every build.
-/

namespace Platform.Epoch
open Lib

structure EpochConfig where
  blocksPerEpoch : UInt64
  evaluationBlocks : UInt64
  commitBlocks : UInt64
  revealBlocks : UInt64
deriving DecidableEq

def EpochConfig.default : EpochConfig := ⟨360, 270, 45, 45⟩

inductive EpochPhase where
  | evaluation
  | commit
  | reveal
  | finalization
deriving DecidableEq

structure EpochState where
  epoch : UInt64
  phase : EpochPhase
  startBlock : UInt64
  currentBlock : UInt64
  blocksRemaining : UInt64
deriving DecidableEq

def EpochState.new (epoch startBlock : UInt64) (config : EpochConfig) : EpochState where
  epoch := epoch
  phase := .evaluation
  startBlock := startBlock
  currentBlock := startBlock
  blocksRemaining := config.evaluationBlocks

inductive EpochTransition where
  | newEpoch (oldEpoch newEpoch : UInt64)
  | phaseChange (epoch : UInt64) (oldPhase newPhase : EpochPhase)
deriving DecidableEq

/-- what a call of `on_new_block` ends with -/
inductive NewBlock where
  | returned (transition : Option EpochTransition)
  | panicked
deriving DecidableEq

structure EpochManager where
  config : EpochConfig
  state : EpochState
deriving DecidableEq

variable (c : EpochConfig) (a b : UInt64)

/-- `a / b`, which panics when `b` is zero -/
def divide : Option UInt64 := if b = 0 then none else some (a / b)

def saturatingSub : UInt64 := if b ≤ a then a - b else 0

namespace EpochConfig

def phaseAt (c : EpochConfig) (blocksIntoEpoch : UInt64) : EpochPhase × UInt64 :=
  if blocksIntoEpoch < c.evaluationBlocks then
    (.evaluation, saturatingSub c.evaluationBlocks blocksIntoEpoch)
  else if blocksIntoEpoch < c.evaluationBlocks + c.commitBlocks then
    (.commit, saturatingSub (c.evaluationBlocks + c.commitBlocks) blocksIntoEpoch)
  else if blocksIntoEpoch < c.evaluationBlocks + c.commitBlocks + c.revealBlocks then
    (.reveal, saturatingSub (c.evaluationBlocks + c.commitBlocks + c.revealBlocks) blocksIntoEpoch)
  else (.finalization, saturatingSub c.blocksPerEpoch blocksIntoEpoch)

end EpochConfig

namespace EpochManager

def new (config : EpochConfig) (currentBlock : UInt64) : Option EpochManager := do
  let epoch ← divide currentBlock config.blocksPerEpoch
  some ⟨config, .new epoch (epoch * config.blocksPerEpoch) config⟩

variable (m : EpochManager)

def updateConfig (newConfig : EpochConfig) : EpochManager :=
  { m with config := newConfig }

def currentEpoch : UInt64 := m.state.epoch

def currentPhase : EpochPhase := m.state.phase

def blocksUntilNextPhase : UInt64 := m.state.blocksRemaining

def onNewBlock (blockNumber : UInt64) : NewBlock × EpochManager :=
  let state := { m.state with currentBlock := blockNumber }
  match divide blockNumber m.config.blocksPerEpoch with
  | none => (.panicked, { m with state := state })
  | some newEpoch =>
    if state.epoch < newEpoch then
      (.returned (some (.newEpoch state.epoch newEpoch)),
        { m with state := { state with
          epoch := newEpoch
          startBlock := newEpoch * m.config.blocksPerEpoch
          phase := .evaluation
          blocksRemaining := m.config.evaluationBlocks } })
    else
      let blocksIntoEpoch := blockNumber - state.startBlock
      let (newPhase, blocksRemaining) := m.config.phaseAt blocksIntoEpoch
      if newPhase ≠ state.phase then
        (.returned (some (.phaseChange state.epoch state.phase newPhase)),
          { m with state := { state with
            phase := newPhase, blocksRemaining := blocksRemaining } })
      else
        (.returned none, { m with state := { state with blocksRemaining := blocksRemaining } })

def epochForBlock (block : UInt64) : Option UInt64 :=
  divide block m.config.blocksPerEpoch

def startBlockForEpoch (epoch : UInt64) : UInt64 :=
  epoch * m.config.blocksPerEpoch

def phaseForBlock (block : UInt64) : Option EpochPhase := do
  let epoch ← m.epochForBlock block
  let blocksIntoEpoch := block - m.startBlockForEpoch epoch
  if blocksIntoEpoch < m.config.evaluationBlocks then some .evaluation
  else if blocksIntoEpoch < m.config.evaluationBlocks + m.config.commitBlocks then some .commit
  else if blocksIntoEpoch <
      m.config.evaluationBlocks + m.config.commitBlocks + m.config.revealBlocks then some .reveal
  else some .finalization

end EpochManager

/-! ## blocks of an epoch -/

structure EpochConfig.Valid : Prop where
  pos : 0 < c.blocksPerEpoch.toNat
  fits : c.evaluationBlocks.toNat + c.commitBlocks.toNat + c.revealBlocks.toNat ≤
    c.blocksPerEpoch.toNat

instance : Decidable c.Valid :=
  decidable_of_iff (0 < c.blocksPerEpoch.toNat ∧ c.evaluationBlocks.toNat + c.commitBlocks.toNat +
    c.revealBlocks.toNat ≤ c.blocksPerEpoch.toNat) ⟨fun h => ⟨h.1, h.2⟩, fun h => ⟨h.pos, h.fits⟩⟩

namespace EpochConfig
variable {c : EpochConfig} {a b x : UInt64}

def epochOf (c : EpochConfig) (b : UInt64) : UInt64 := b / c.blocksPerEpoch

def phaseOffset (c : EpochConfig) : EpochPhase → Nat
  | .evaluation => c.evaluationBlocks.toNat
  | .commit => c.evaluationBlocks.toNat + c.commitBlocks.toNat
  | .reveal => c.evaluationBlocks.toNat + c.commitBlocks.toNat + c.revealBlocks.toNat
  | .finalization => c.blocksPerEpoch.toNat

def phaseEnd (c : EpochConfig) (phase : EpochPhase) (b : UInt64) : Nat :=
  (c.epochOf b).toNat * c.blocksPerEpoch.toNat + c.phaseOffset phase

theorem divide_of_pos (hp : 0 < c.blocksPerEpoch.toNat) (b : UInt64) :
    divide b c.blocksPerEpoch = some (c.epochOf b) := by
  have hne : c.blocksPerEpoch ≠ 0 := by
    intro h
    rw [h] at hp
    exact absurd hp (Nat.lt_irrefl 0)
  rw [divide, if_neg hne]
  rfl

theorem toNat_epochOf (c : EpochConfig) (b : UInt64) :
    (c.epochOf b).toNat = b.toNat / c.blocksPerEpoch.toNat := UInt64.toNat_div _ _

theorem toNat_start (c : EpochConfig) (b : UInt64) :
    (c.epochOf b * c.blocksPerEpoch).toNat = (c.epochOf b).toNat * c.blocksPerEpoch.toNat := by
  have hle : (c.epochOf b).toNat * c.blocksPerEpoch.toNat ≤ b.toNat := by
    exact Nat.div_mul_le_self _ _
  rw [UInt64.toNat_mul]
  have hb := b.toNat_lt
  omega

theorem toNat_into (c : EpochConfig) (b : UInt64) :
    (b - c.epochOf b * c.blocksPerEpoch).toNat = b.toNat % c.blocksPerEpoch.toNat := by
  have hle : c.epochOf b * c.blocksPerEpoch ≤ b := by
    rw [UInt64.le_iff_toNat_le, toNat_start]
    exact Nat.div_mul_le_self _ _
  have hm := Nat.div_add_mod' b.toNat c.blocksPerEpoch.toNat
  rw [UInt64.toNat_sub_of_le _ _ hle, toNat_start, toNat_epochOf]
  omega

theorem toNat_saturatingSub (h : b.toNat ≤ a.toNat) :
    (saturatingSub a b).toNat = a.toNat - b.toNat := by
  have hle : b ≤ a := UInt64.le_iff_toNat_le.mpr h
  rw [saturatingSub, if_pos hle, UInt64.toNat_sub_of_le _ _ hle]

theorem toNat_two_phases (hc : c.Valid) :
    (c.evaluationBlocks + c.commitBlocks).toNat =
      c.evaluationBlocks.toNat + c.commitBlocks.toNat := by
  have hft := hc.fits
  have hlt := c.blocksPerEpoch.toNat_lt
  rw [UInt64.toNat_add]
  omega

theorem toNat_three_phases (hc : c.Valid) :
    (c.evaluationBlocks + c.commitBlocks + c.revealBlocks).toNat =
      c.evaluationBlocks.toNat + c.commitBlocks.toNat + c.revealBlocks.toNat := by
  have hft := hc.fits
  have hlt := c.blocksPerEpoch.toNat_lt
  rw [UInt64.toNat_add, toNat_two_phases hc]
  omega

theorem phaseAt_remaining (hc : c.Valid) (hx : x.toNat < c.blocksPerEpoch.toNat) :
    x.toNat + (c.phaseAt x).2.toNat = c.phaseOffset (c.phaseAt x).1 := by
  have htw := toNat_two_phases hc
  have hth := toNat_three_phases hc
  unfold phaseAt
  split
  · next h =>
    rw [UInt64.lt_iff_toNat_lt] at h
    show x.toNat + (saturatingSub _ _).toNat = c.evaluationBlocks.toNat
    rw [toNat_saturatingSub (by omega)]
    omega
  split
  · next h =>
    rw [UInt64.lt_iff_toNat_lt] at h
    show x.toNat + (saturatingSub _ _).toNat = c.evaluationBlocks.toNat + c.commitBlocks.toNat
    rw [toNat_saturatingSub (by omega)]
    omega
  split
  · next h =>
    rw [UInt64.lt_iff_toNat_lt] at h
    show x.toNat + (saturatingSub _ _).toNat =
      c.evaluationBlocks.toNat + c.commitBlocks.toNat + c.revealBlocks.toNat
    rw [toNat_saturatingSub (by omega)]
    omega
  · show x.toNat + (saturatingSub _ _).toNat = c.blocksPerEpoch.toNat
    rw [toNat_saturatingSub (by omega)]
    omega

theorem phaseAt_evaluation_iff : (c.phaseAt x).1 = .evaluation ↔ x < c.evaluationBlocks := by
  unfold phaseAt
  by_cases h : x < c.evaluationBlocks
  · simp [h]
  · rw [if_neg h]
    split
    · simp [h]
    · split <;> simp [h]

end EpochConfig

/-! ## one block -/

namespace EpochManager
variable {m : EpochManager} {c : EpochConfig} {a b : UInt64}

theorem phaseForBlock_eq (hp : 0 < m.config.blocksPerEpoch.toNat) (b : UInt64) :
    m.phaseForBlock b = some (m.config.phaseAt
      (b - m.config.epochOf b * m.config.blocksPerEpoch)).1 := by
  unfold phaseForBlock epochForBlock startBlockForEpoch EpochConfig.phaseAt
  rw [EpochConfig.divide_of_pos hp]
  dsimp only [Option.bind_eq_bind, Option.bind_some]
  split
  · rfl
  split
  · rfl
  split
  · rfl
  · rfl

def entered (m : EpochManager) (b epoch : UInt64) : EpochManager :=
  { m with state :=
    ⟨epoch, .evaluation, epoch * m.config.blocksPerEpoch, b, m.config.evaluationBlocks⟩ }

def advanced (m : EpochManager) (b : UInt64) : EpochManager :=
  { m with state :=
    { m.state with
      currentBlock := b
      phase := (m.config.phaseAt (b - m.state.startBlock)).1
      blocksRemaining := (m.config.phaseAt (b - m.state.startBlock)).2 } }

theorem after_onNewBlock (hps : 0 < m.config.blocksPerEpoch.toNat) (b : UInt64) :
    (m.onNewBlock b).2 =
      if m.state.epoch < m.config.epochOf b then m.entered b (m.config.epochOf b)
      else m.advanced b := by
  unfold onNewBlock
  rw [EpochConfig.divide_of_pos hps]
  dsimp only
  split
  · rfl
  · split
    · rfl
    · next hp =>
      have hs := not_not.mp hp
      unfold advanced
      rw [hs]

structure Follows (m : EpochManager) (b : UInt64) : Prop where
  epoch : m.epochForBlock b = some m.currentEpoch
  phase : m.phaseForBlock b = some m.currentPhase
  remaining : b.toNat + m.blocksUntilNextPhase.toNat = m.config.phaseEnd m.currentPhase b

structure Tracks (m : EpochManager) (c : EpochConfig) (a : UInt64) : Prop where
  config : m.config = c
  epoch : m.state.epoch = c.epochOf a
  start : m.state.startBlock = c.epochOf a * c.blocksPerEpoch

theorem tracks_new (hp : 0 < c.blocksPerEpoch.toNat) (hn : new c a = some m) :
    m.Tracks c a := by
  unfold new at hn
  rw [EpochConfig.divide_of_pos hp] at hn
  obtain rfl := Option.some_inj.mp hn
  exact ⟨rfl, rfl, rfl⟩

theorem follows_entered_iff (hc : m.config.Valid) (b : UInt64) :
    (m.entered b (m.config.epochOf b)).Follows b ↔
      b.toNat % m.config.blocksPerEpoch.toNat = 0 ∧ 0 < m.config.evaluationBlocks.toNat := by
  have hio := m.config.toNat_into b
  have hm := Nat.div_add_mod' b.toNat m.config.blocksPerEpoch.toNat
  have hp := phaseForBlock_eq (m := m.entered b (m.config.epochOf b)) hc.pos b
  have hen : (m.entered b (m.config.epochOf b)).config.phaseEnd .evaluation b =
      b.toNat / m.config.blocksPerEpoch.toNat * m.config.blocksPerEpoch.toNat +
        m.config.evaluationBlocks.toNat := by
    show (m.config.epochOf b).toNat * _ + _ = _
    rfl
  constructor
  · intro h
    have hrm := h.remaining
    have hsh := h.phase
    rw [hp] at hsh
    have hlt := EpochConfig.phaseAt_evaluation_iff.mp (Option.some_inj.mp hsh)
    change b.toNat + m.config.evaluationBlocks.toNat = _ at hrm
    rw [show (m.entered b (m.config.epochOf b)).currentPhase = .evaluation from rfl] at hrm
    change (b - m.config.epochOf b * m.config.blocksPerEpoch).toNat <
      m.config.evaluationBlocks.toNat at hlt
    omega
  · intro h
    refine ⟨EpochConfig.divide_of_pos hc.pos b, ?_, ?_⟩
    · rw [hp]
      apply congrArg some
      apply EpochConfig.phaseAt_evaluation_iff.mpr
      show (b - m.config.epochOf b * m.config.blocksPerEpoch).toNat <
        m.config.evaluationBlocks.toNat
      rw [hio, h.1]
      exact h.2
    · show b.toNat + m.config.evaluationBlocks.toNat = _
      rw [show (m.entered b (m.config.epochOf b)).currentPhase = .evaluation from rfl]
      omega

theorem follows_advanced (hc : m.config.Valid) (he : m.state.epoch = m.config.epochOf b)
    (hsr : m.state.startBlock = m.config.epochOf b * m.config.blocksPerEpoch) :
    (m.advanced b).Follows b := by
  have hio := m.config.toNat_into b
  have hm := Nat.div_add_mod' b.toNat m.config.blocksPerEpoch.toNat
  have hlt : (b - m.state.startBlock).toNat < m.config.blocksPerEpoch.toNat := by
    rw [hsr, hio]
    exact Nat.mod_lt _ hc.pos
  refine ⟨?_, ?_, ?_⟩
  · show divide b m.config.blocksPerEpoch = some m.state.epoch
    rw [EpochConfig.divide_of_pos hc.pos, he]
  · rw [phaseForBlock_eq (m := m.advanced b) hc.pos b]
    show some (m.config.phaseAt (b - m.config.epochOf b * m.config.blocksPerEpoch)).1 =
      some (m.config.phaseAt (b - m.state.startBlock)).1
    rw [hsr]
  · have hrm := EpochConfig.phaseAt_remaining hc hlt
    show b.toNat + (m.config.phaseAt (b - m.state.startBlock)).2.toNat =
      (m.config.epochOf b).toNat * m.config.blocksPerEpoch.toNat +
        m.config.phaseOffset (m.config.phaseAt (b - m.state.startBlock)).1
    rw [← hrm, EpochConfig.toNat_epochOf, hsr]
    omega

end EpochManager

/-! ## a sequence of blocks -/

def EpochConfig.Smooth : Prop :=
  c.epochOf a = c.epochOf b ∨
    (c.epochOf a < c.epochOf b ∧ b.toNat % c.blocksPerEpoch.toNat = 0 ∧
      0 < c.evaluationBlocks.toNat)

instance : Decidable (c.Smooth a b) :=
  inferInstanceAs (Decidable (_ ∨ _))

namespace EpochManager
variable {m m' m₀ : EpochManager} {c config : EpochConfig} {a b start : UInt64}
  {l : List (Call EpochManager UInt64 NewBlock)}

theorem onNewBlock_step (hc : c.Valid) (hm : m.Tracks c a) (b : UInt64) :
    ((m.onNewBlock b).2.Follows b ↔ c.Smooth a b) ∧
      (c.Smooth a b → (m.onNewBlock b).2.Tracks c b) := by
  obtain ⟨rfl, he, hsr⟩ := hm
  rw [after_onNewBlock hc.pos, he]
  by_cases hlt : m.config.epochOf a < m.config.epochOf b
  · have hne : m.config.epochOf a ≠ m.config.epochOf b := by
      intro h
      rw [h, UInt64.lt_iff_toNat_lt] at hlt
      omega
    rw [if_pos hlt, follows_entered_iff hc]
    refine ⟨?_, fun _ => ⟨rfl, rfl, rfl⟩⟩
    simp only [EpochConfig.Smooth, hne, hlt, false_or, true_and]
  · rw [if_neg hlt]
    by_cases hs : m.config.epochOf a = m.config.epochOf b
    · rw [hs] at he hsr
      exact ⟨iff_of_true (follows_advanced hc he hsr) (.inl hs), fun _ => ⟨rfl, he, hsr⟩⟩
    · have hnt : ¬ m.config.Smooth a b := by
        intro h
        rcases h with h | h
        · exact hs h
        · exact hlt h.1
      -- a block of an earlier epoch leaves the number of the epoch as it is
      refine ⟨iff_of_false ?_ hnt, fun h => absurd h hnt⟩
      intro h
      have hsh : divide b m.config.blocksPerEpoch = some m.state.epoch := h.epoch
      rw [EpochConfig.divide_of_pos hc.pos, he] at hsh
      exact hs (Option.some_inj.mp hsh).symm

theorem run_follows_iff (hc : c.Valid) (hm : m.Tracks c a)
    (hrun : MachineRun onNewBlock m l m') :
    (∀ k ∈ l, k.after.Follows k.input) ↔ List.IsChain c.Smooth (a :: l.map Call.input) := by
  induction l generalizing m a with
  | nil => simp
  | cons k l ih =>
    obtain ⟨m₁, hstep, hr⟩ := Run.head hrun
    obtain ⟨hfl, htr⟩ := onNewBlock_step hc hm k.input
    rw [← hstep.after_eq, ← hstep.2.1] at hfl htr
    rw [List.forall_mem_cons, List.map_cons, List.isChain_cons_cons, hfl]
    apply and_congr_right
    intro hsm
    apply ih
    · exact htr hsm
    · rw [hstep.2.1]
      exact hr

/-- **The manager follows the chain** after every block, exactly if each block is in the epoch of
the one before (the block that the manager was made at, for the first), or is the first block of a
later epoch with an evaluation phase. -/
theorem follows_iff (hc : config.Valid) (hnew : new config start = some m₀)
    (hrun : MachineRun onNewBlock m₀ l m) :
    (∀ k ∈ l, k.after.Follows k.input) ↔ List.IsChain config.Smooth (start :: l.map Call.input) :=
  run_follows_iff hc (tracks_new hc.pos hnew) hrun

/-- Two epochs of the default length, the second one entered at its first block. -/
theorem follows_iff_two_epochs :
    EpochConfig.default.Valid ∧ ∃ m₀, new .default 100 = some m₀ ∧
      ∀ k ∈ (trace onNewBlock m₀ [100, 270, 330, 360, 420]).1, k.after.Follows k.input := by
  have hc : EpochConfig.default.Valid := by decide
  refine ⟨hc, _, rfl, ?_⟩
  apply (follows_iff hc rfl (machineRun_trace onNewBlock _ _)).mpr
  decide

/-- A block in the middle of a later epoch: the manager is made at block 0 and hears block 700,
which is in the reveal phase of epoch 1, twenty blocks before its end. -/
theorem jump_not_followed : ∃ m₀, new .default 0 = some m₀ ∧
    (m₀.onNewBlock 700).2.phaseForBlock 700 = some .reveal ∧
    (m₀.onNewBlock 700).2.currentPhase = .evaluation ∧
    (m₀.onNewBlock 700).2.blocksUntilNextPhase = 270 ∧
    ¬ (m₀.onNewBlock 700).2.Follows 700 := by
  refine ⟨_, rfl, by decide, by decide, by decide, ?_⟩
  intro h
  have hp := h.phase
  revert hp
  decide

/-! ## a new configuration -/

def TakenOver (m : EpochManager) (c : EpochConfig) (b : UInt64) : Prop :=
  m.currentEpoch = c.epochOf b ∧ m.state.startBlock = c.epochOf b * c.blocksPerEpoch

/-- After some blocks under the configuration `c`: none of them was in an epoch after the one that
the manager was in, or the latest one has been taken over. -/
structure Raised (m m' : EpochManager) (c : EpochConfig) (blocks : List UInt64) : Prop where
  config : m'.config = c
  le : ∀ b ∈ blocks, c.epochOf b ≤ m'.state.epoch
  cases : (m'.state.epoch = m.state.epoch ∧ m'.state.startBlock = m.state.startBlock) ∨
    (m.state.epoch < m'.state.epoch ∧ m'.state.startBlock = m'.state.epoch * c.blocksPerEpoch ∧
      ∃ b ∈ blocks, m'.state.epoch = c.epochOf b)

theorem Raised.step {blocks : List UInt64} (hp : 0 < c.blocksPerEpoch.toNat)
    (h : Raised m₀ m c blocks) (b : UInt64) :
    Raised m₀ (m.onNewBlock b).2 c (blocks ++ [b]) := by
  obtain ⟨rfl, hle, hcs⟩ := h
  rw [after_onNewBlock hp]
  by_cases hlr : m.state.epoch < m.config.epochOf b
  · rw [if_pos hlr]
    refine ⟨rfl, ?_, ?_⟩
    · intro b' hb'
      show m.config.epochOf b' ≤ m.config.epochOf b
      rcases List.mem_append.mp hb' with hb' | hb'
      · have hb := hle b' hb'
        rw [UInt64.le_iff_toNat_le] at hb ⊢
        rw [UInt64.lt_iff_toNat_lt] at hlr
        omega
      · rw [List.mem_singleton.mp hb']
        exact UInt64.le_refl _
    · right
      refine ⟨?_, rfl, b, by simp, rfl⟩
      show m₀.state.epoch < m.config.epochOf b
      rcases hcs with hsame | hrs
      · rw [← hsame.1]
        exact hlr
      · exact UInt64.lt_trans hrs.1 hlr
  · rw [if_neg hlr]
    refine ⟨rfl, ?_, ?_⟩
    · intro b' hb'
      rcases List.mem_append.mp hb' with hb' | hb'
      · exact hle b' hb'
      · rw [List.mem_singleton.mp hb']
        exact UInt64.not_lt.mp hlr
    · rcases hcs with hsame | hrs
      · exact .inl hsame
      · obtain ⟨hlt, hsr, b', hb', he⟩ := hrs
        exact .inr ⟨hlt, hsr, b', List.mem_append_left _ hb', he⟩

theorem run_raised (hp : 0 < c.blocksPerEpoch.toNat)
    (hrun : MachineRun onNewBlock (m.updateConfig c) l m') :
    Raised m m' c (l.map Call.input) := by
  refine Run.logInvariant (P := fun l m' => Raised m m' c (l.map Call.input)) ?_ ?_ hrun
  · exact ⟨rfl, by simp, .inl ⟨rfl, rfl⟩⟩
  · intro l m₁ k m₂ _ h hstep
    rw [List.map_append, hstep.after_eq]
    exact h.step hp k.input

/-- **A new configuration takes effect** with the first blocks after it, exactly if the number of
their epoch under the new length is larger than the manager's, or the same with the same first
block. -/
theorem tempo_change_iff {k : Call EpochManager UInt64 NewBlock}
    (hpos : 0 < c.blocksPerEpoch.toNat)
    (hrun : MachineRun onNewBlock (m.updateConfig c) (l ++ [k]) m')
    (hmono : ((l ++ [k]).map Call.input).Pairwise (· ≤ ·)) :
    m'.TakenOver c k.input ↔
      m.state.epoch < c.epochOf k.input ∨
        (m.state.epoch = c.epochOf k.input ∧
          m.state.startBlock = c.epochOf k.input * c.blocksPerEpoch) := by
  have hrs := run_raised hpos hrun
  have hls : ∀ b ∈ (l ++ [k]).map Call.input, c.epochOf b ≤ c.epochOf k.input := by
    intro b hb
    rw [List.map_append] at hb hmono
    apply Nat.div_le_div_right
    rcases List.mem_append.mp hb with hb | hb
    · exact UInt64.le_iff_toNat_le.mp ((List.pairwise_append.mp hmono).2.2 b hb _ (by simp))
    · exact Nat.le_of_eq (congrArg UInt64.toNat (List.mem_singleton.mp hb))
  have hle := hrs.le k.input (by simp)
  unfold TakenOver currentEpoch
  rcases hrs.cases with hsame | hcs
  · -- nothing has been taken over: what is stored is what was stored before
    rw [hsame.1, hsame.2]
    constructor
    · exact .inr
    · intro h
      rcases h with h | h
      · rw [hsame.1, UInt64.le_iff_toNat_le] at hle
        rw [UInt64.lt_iff_toNat_lt] at h
        omega
      · exact h
  · obtain ⟨hlt, hsr, b, hb, he⟩ := hcs
    have heq : m'.state.epoch = c.epochOf k.input := by
      apply UInt64.le_antisymm
      · rw [he]
        exact hls b hb
      · exact hle
    rw [hsr, heq]
    rw [heq] at hlt
    exact iff_of_true ⟨rfl, rfl⟩ (.inl hlt)

def sampleManager : EpochManager := ⟨.default, .new 2 720 .default⟩

/-- A shorter epoch: block 1000 is in epoch 10 then. -/
theorem tempo_change_shorter :
    new .default 1000 = some sampleManager ∧
      ((sampleManager.updateConfig ⟨100, 75, 12, 13⟩).onNewBlock 1000).2.TakenOver
        ⟨100, 75, 12, 13⟩ 1000 := by
  refine ⟨by decide, ?_⟩
  have hrun : MachineRun onNewBlock (sampleManager.updateConfig ⟨100, 75, 12, 13⟩)
      ([] ++ [(record onNewBlock (sampleManager.updateConfig ⟨100, 75, 12, 13⟩) 1000).1])
      ((sampleManager.updateConfig ⟨100, 75, 12, 13⟩).onNewBlock 1000).2 :=
    machineRun_record .nil 1000
  exact (tempo_change_iff (by decide) hrun (by decide)).mpr (by decide)

/-- A longer epoch: the manager stays in epoch 2 from block 720 on, though block 1100 is in epoch 1
under the new length, and so are all blocks before block 1440. -/
theorem tempo_change_ignored :
    new .default 1000 = some sampleManager ∧
      ((sampleManager.updateConfig ⟨720, 540, 90, 90⟩).onNewBlock 1100).2.currentEpoch = 2 ∧
      (⟨720, 540, 90, 90⟩ : EpochConfig).epochOf 1100 = 1 ∧
      ¬ ((sampleManager.updateConfig ⟨720, 540, 90, 90⟩).onNewBlock 1100).2.TakenOver
        ⟨720, 540, 90, 90⟩ 1100 := by
  refine ⟨by decide, by decide, by decide, ?_⟩
  intro h
  have he := h.1
  revert he
  decide

end EpochManager

end Platform.Epoch
