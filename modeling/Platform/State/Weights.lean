import Platform.State.Sync

/-!
# Weight votes and the history of weights

The container of the weight votes is made by the first signed vote of an epoch, for the epoch that
this vote names.  Nothing compares it with the epoch of the state, and `next_epoch` throws away the
flag that says that an epoch is finalized.
-/

namespace Platform.State
open Lib Platform.Core ChainState

/-! ## the votes that count -/

namespace ChainState
variable {F : Type}

def countedVotes (s : ChainState F) (votes : WeightVotes) : List (Hotkey × UInt64 × Weights) :=
  (votes.votes.entries.map fun p => (p.1, (s.validators.lookup p.1).getD 0, p.2)).filter
    fun v => decide (v.2.1 ≠ 0)

theorem mem_countedVotes {s : ChainState F} {votes : WeightVotes} {v : Hotkey} {w : Weights}
    {stk : UInt64} (hw : votes.votes.lookup v = some w)
    (hv : s.validators.lookup v = some stk) (hs : stk ≠ 0) :
    (v, stk, w) ∈ s.countedVotes votes := by
  refine List.mem_filter.mpr ⟨List.mem_map.mpr ⟨⟨v, w⟩, ?_, ?_⟩, decide_eq_true hs⟩
  · exact (HashMap.lookup_iff_mem _ _ _).mp hw
  · rw [hv, Option.getD_some]

variable [F64 F]

def tallyCounted (acc : UInt64 × HashMap UInt16 F) (v : Hotkey × UInt64 × Weights) :
    UInt64 × HashMap UInt16 F :=
  (acc.1 + v.2.1, v.2.2.foldl (addWeight v.2.1) acc.2)

def aggregate (F : Type) [F64 F] (counted : List (Hotkey × UInt64 × Weights)) : Option Weights :=
  let sums := counted.foldl tallyCounted (0, (∅ : HashMap UInt16 F))
  if sums.1 = 0 then none else some (normalize sums.2)

theorem foldl_tallyVote (s : ChainState F) (vs : List ((_ : Hotkey) × Weights))
    (acc : UInt64 × HashMap UInt16 F) :
    vs.foldl s.tallyVote acc =
      ((vs.map fun p => (p.1, (s.validators.lookup p.1).getD 0, p.2)).filter
        fun v => decide (v.2.1 ≠ 0)).foldl tallyCounted acc := by
  induction vs generalizing acc with
  | nil => rfl
  | cons p vs ih =>
    rw [List.foldl_cons, List.map_cons]
    by_cases hs : (s.validators.lookup p.1).getD 0 = 0
    · rw [List.filter_cons_of_neg (by simp [hs]), ← ih, tallyVote, if_pos hs]
    · rw [List.filter_cons_of_pos (by simp [hs]), List.foldl_cons, ← ih, tallyVote,
        if_neg hs, tallyCounted]

/-- `finalize_weights` aggregates the votes that count. -/
theorem finalizeWeights_fst (C : Crypto) (now : Int) (s : ChainState F) {vs : WeightVotes}
    (hv : s.weightVotes = some vs) (hf : vs.finalized = false) :
    (s.finalizeWeights C now).1 = aggregate F (s.countedVotes vs) := by
  unfold finalizeWeights aggregate countedVotes
  rw [hv, ← foldl_tallyVote]
  simp only [hf, Bool.false_eq_true, if_false]
  split
  · rfl
  · rfl

end ChainState

section
variable {F : Type}

def opensOther (C : Crypto) (c : StateCall F) : Bool :=
  match c.input.2 with
  | .addWeightVoteVerified v w e sig =>
    c.before.weightVotes.isNone && decide (Signed C c.before v w e sig) &&
      decide (e ≠ c.before.epoch)
  | _ => false

def CurrentVotes (s : ChainState F) : Prop := ∀ w, s.weightVotes = some w → w.epoch = s.epoch

theorem currentVotes_withSudo (C : Crypto) (now : Int) (sudoKey : Hotkey) (netuid : UInt16) :
    CurrentVotes (withSudo C now sudoKey netuid : ChainState F) := by
  intro w hw
  cases hw

variable {C : Crypto} {s s' : ChainState F} {c : StateCall F} {l : List (StateCall F)}

variable [F64 F]

theorem currentVotes_of_step (hst : CallStep (stateNext C) s c s') (ho : opensOther C c = false)
    (hi : CurrentVotes s) : CurrentVotes s' := by
  have he := effect_of_step hst
  obtain ⟨rfl, -, -⟩ := hst
  generalize hin : c.input.2 = op, c.out = out at he
  cases he with
  | rehashed | registered | absent | evaluationAdded | evaluationRefused | evaluated | notCompleted
  | completed | voteRefused | voteStale | notFinalized => exact hi
  | @voted v w e _ _ hs hv =>
    intro w hw
    cases hw
    cases hw : c.before.weightVotes with
    | none =>
      rw [hw] at hv
      have he : e = c.before.epoch := by
        simpa [opensOther, hin, hw, hs] using ho
      rw [hv, ← he]
      rfl
    | some vs' =>
      rw [hw] at hv
      rw [hv]
      exact hi vs' hw
  | finalized ws hv =>
    have hep := hi _ hv
    intro w hw
    cases hw
    exact hep
  | epochEnded =>
    intro w hw
    cases hw

theorem currentVotes_of_run {s₀ : ChainState F} (h : StateRun C s₀ l s) (h0 : CurrentVotes s₀)
    (ho : ∀ c ∈ l, opensOther C c = false) : CurrentVotes s := by
  refine Run.guarded h0 ?_ h ho
  intro s c s' hi hc hst
  exact currentVotes_of_step hst hc hi

/-! ## a vote until it is counted -/

def Holds (v : Hotkey) (w : Weights) (s : ChainState F) : Prop :=
  ∃ votes, s.weightVotes = some votes ∧ votes.votes.lookup v = some w

def Spares (C : Crypto) (v : Hotkey) (w : Weights) (c : StateCall F) : Prop :=
  c.input.2 ≠ .nextEpoch ∧ ∀ w' e sig, c.input.2 = .addWeightVoteVerified v w' e sig →
    Signed C c.before v w' e sig → w' = w

theorem holds_of_vote {v : Hotkey} {w : Weights} {sig : Bytes}
    (hst : CallStep (stateNext C) s c s') (hi : CurrentVotes s)
    (hin : c.input.2 = .addWeightVoteVerified v w s.epoch sig) (hs : Signed C s v w s.epoch sig)
    (hf : ∀ vs, s.weightVotes = some vs → vs.finalized = false) : Holds v w s' := by
  have he := effect_of_step hst
  rw [hin] at he
  generalize c.out = out at he
  cases he with
  | absent hop | registered hop => cases hop
  | voteRefused err hnt => exact absurd hs hnt
  | voteStale _ hv hsl => exact absurd ⟨hi _ hv, hf _ hv⟩ hsl
  | voted => exact ⟨_, rfl, AList.lookup_insert _⟩

theorem holds_of_step {v : Hotkey} {w : Weights} (hst : CallStep (stateNext C) s c s')
    (hc : Spares C v w c) (hs : Holds v w s) : Holds v w s' := by
  obtain ⟨vs₀, hv₀, hlk⟩ := hs
  have he := effect_of_step hst
  obtain ⟨rfl, -, -⟩ := hst
  obtain ⟨hep, hoh⟩ := hc
  generalize hin : c.input.2 = op, c.out = out at he
  cases he with
  | rehashed | registered | absent | evaluationAdded | evaluationRefused | evaluated | notCompleted
  | completed | voteRefused | voteStale | notFinalized => exact ⟨vs₀, hv₀, hlk⟩
  | @voted v' w' e sig vs hsg hvt =>
    rw [hv₀] at hvt
    subst hvt
    refine ⟨_, rfl, (HashMap.lookup_insert_iff _ _ _ _ _).mpr ?_⟩
    by_cases hv : v = v'
    · subst hv
      exact Or.inl ⟨rfl, (hoh w' e sig hin hsg).symm⟩
    · exact Or.inr ⟨hv, hlk⟩
  | finalized ws hvt =>
    rw [hv₀, Option.some_inj] at hvt
    subst hvt
    exact ⟨_, rfl, hlk⟩
  | epochEnded => exact absurd hin hep

end

/-- **Votes of the current epoch count**, in every run in which a signed vote that finds no
container is for the epoch of the state.  The container is always the one of the current epoch; a
signed vote for it is stored, unless the epoch is finalized; and the call that finalizes the epoch
computes its weights from votes among which it is, as long as its validator has stake and has not
voted otherwise since. -/
theorem current_votes_count {F : Type} [F64 F] (C : Crypto) (now : Int) (sudoKey : Hotkey)
    (netuid : UInt16) (l : List (StateCall F)) (s : ChainState F)
    (h : StateRun C (withSudo C now sudoKey netuid) l s)
    (hopen : ∀ c ∈ l, opensOther C c = false) :
    (∀ w, s.weightVotes = some w → w.epoch = s.epoch) ∧
    ∀ l₁ c l₂ d l₃, l = l₁ ++ c :: (l₂ ++ d :: l₃) → ∀ v w sig,
      c.input.2 = .addWeightVoteVerified v w c.before.epoch sig →
      Signed C c.before v w c.before.epoch sig →
      (∀ votes, c.before.weightVotes = some votes → votes.finalized = false) →
      (∃ votes, c.after.weightVotes = some votes ∧ votes.votes.lookup v = some w) ∧
      ((∀ b ∈ l₂, Spares C v w b) → d.input.2 = .finalizeWeights →
        (∀ votes, d.before.weightVotes = some votes → votes.finalized = false) →
        ∃ votes, d.before.weightVotes = some votes ∧
          d.out = .weights (aggregate F (d.before.countedVotes votes)) ∧
          ∀ stake, d.before.validators.lookup v = some stake → stake ≠ 0 →
            (v, stake, w) ∈ d.before.countedVotes votes) := by
  refine ⟨currentVotes_of_run h (currentVotes_withSudo C now sudoKey netuid) hopen, ?_⟩
  rintro l₁ c l₂ d l₃ rfl v w sig hin hs hf
  obtain ⟨s₁, hrun, h1⟩ := Run.split h
  obtain ⟨s₂, hst, h2⟩ := Run.head h1
  obtain ⟨s₃, hm, h3⟩ := Run.split h2
  obtain ⟨s₄, hst', -⟩ := Run.head h3
  have hcr := currentVotes_of_run hrun (currentVotes_withSudo C now sudoKey netuid)
    fun b hb => hopen b (List.mem_append_left _ hb)
  rw [hst.1] at hin hs hf
  have hsr : Holds v w s₂ := holds_of_vote hst hcr hin hs hf
  refine ⟨hst.2.1 ▸ hsr, ?_⟩
  intro hsp hfn ho'
  obtain ⟨votes, hvt, hlk⟩ : Holds v w s₃ := by
    refine Run.guarded hsr ?_ hm hsp
    intro t c t' ht hc hst
    exact holds_of_step hst hc ht
  have ho := hst'.out_eq
  rw [hst'.1] at ho' ⊢
  refine ⟨votes, hvt, ?_, fun stake hv hsk => mem_countedVotes hlk hv hsk⟩
  rw [ho, ← finalizeWeights_fst C d.input.1 s₃ hvt (ho' votes hvt)]
  unfold stateNext
  rw [hfn]
  rfl

/-- One validator votes and the epoch is finalized with its vote. -/
theorem current_votes_count_sample :
    let run := sampleTrace [.updateValidator (.ofByte 1) 5, sampleVote 1 [(0, 1), (3, 2)] 0,
      .finalizeWeights]
    run.1.map (fun c => c.out) =
        [.unit, .result (.ok ()), .weights (some [(3, 65535), (0, 32767)])] ∧
      ∀ w, run.2.weightVotes = some w → w.epoch = run.2.epoch :=
  ⟨by decide +kernel, (current_votes_count sampleCrypto 0 _ 1 _ _ (stateRun_sampleTrace _)
    (by decide +kernel)).1⟩

/-- **Anybody's vote decides the epoch.**  A vote for epoch 9, signed by a key that is no
validator's, makes the container in epoch 0. -/
theorem current_votes_count_stranger :
    ¬ ∀ (C : Crypto) (now : Int) (sudoKey : Hotkey) (netuid : UInt16) (l : List (StateCall ℚ))
      (s : ChainState ℚ), StateRun C (withSudo C now sudoKey netuid) l s →
      ∀ w, s.weightVotes = some w → w.epoch = s.epoch := by
  intro h
  have hrun := stateRun_sampleTrace [sampleVote 7 [(0, 1)] 9]
  have hv : ∃ w, (sampleTrace [sampleVote 7 [(0, 1)] 9]).2.weightVotes = some w ∧ w.epoch = 9 :=
    ⟨_, rfl, rfl⟩
  obtain ⟨w, hw, he⟩ := hv
  have h9 : (9 : UInt64) = (sampleTrace [sampleVote 7 [(0, 1)] 9]).2.epoch :=
    he.symm.trans (h _ _ _ _ _ _ hrun w hw)
  revert h9
  decide +kernel

/-! ## the history -/

section
variable {F : Type}

def InOrder (C : Crypto) (c : StateCall F) : Prop :=
  opensOther C c = false ∧ (c.input.2 = .nextEpoch → c.before.epoch.toNat + 1 < 2 ^ 64)

instance [DecidableEq F] (C : Crypto) (c : StateCall F) : Decidable (InOrder C c) :=
  inferInstanceAs (Decidable (_ ∧ _))

structure HistoryInv (s : ChainState F) : Prop where
  current : CurrentVotes s
  bound : ∀ e ws, s.historicalWeights.lookup e = some ws → e ≤ s.epoch
  unwritten : (∀ w, s.weightVotes = some w → w.finalized = false) →
    s.historicalWeights.lookup s.epoch = none

theorem lookup_pruned (ep e : UInt64) (history : HashMap UInt64 Weights) :
    (pruned ep history).lookup e = history.lookup e ∨ (pruned ep history).lookup e = none := by
  unfold pruned
  split
  · cases h : (history.retain _).lookup e with
    | none => exact Or.inr rfl
    | some ws => exact Or.inl ((HashMap.lookup_retain_iff _ _ _ _).mp h).1.symm
  · exact Or.inl rfl

inductive EntryStep (c : StateCall F) (e : UInt64) : Prop
  | kept (he : c.before.epoch ≤ c.after.epoch)
      (h : c.after.historicalWeights.lookup e = c.before.historicalWeights.lookup e)
  | written (he : c.before.epoch = e) (hepoch : c.after.epoch = c.before.epoch)
      (h : c.before.historicalWeights.lookup e = none)
  | pruned (hin : c.input.2 = .nextEpoch) (he : c.before.epoch < c.after.epoch)
      (h : c.after.historicalWeights.lookup e = none)

variable [F64 F] {C : Crypto} {s s' : ChainState F} {c : StateCall F}

variable (hi : HistoryInv s) (hst : CallStep (stateNext C) s c s') (hc : InOrder C c)

section
include hi hst hc

theorem HistoryInv.entryStep (e : UInt64) : EntryStep c e := by
  have hef := effect_of_step hst
  obtain ⟨rfl, rfl, -⟩ := hst
  generalize hin : c.input.2 = op, c.out = out, ha : c.after = s' at hef
  cases hef with
  | rehashed | registered | absent | evaluationAdded | evaluationRefused | evaluated | notCompleted
  | completed | voteRefused | voteStale | voted | notFinalized =>
    exact .kept (ha ▸ UInt64.le_refl _) (ha ▸ rfl)
  | @finalized vs ws hv hf =>
    have hep : vs.epoch = c.before.epoch := hi.current _ hv
    by_cases he : e = c.before.epoch
    · refine .written he.symm (ha ▸ rfl) ?_
      rw [he]
      refine hi.unwritten fun w hw => ?_
      rw [hv, Option.some_inj] at hw
      rw [← hw, hf]
    · refine .kept (ha ▸ UInt64.le_refl _) ?_
      rw [ha]
      exact AList.lookup_insert_ne (hep ▸ he)
  | epochEnded =>
    have hlt := lt_add_one (hc.2 hin)
    rcases lookup_pruned (c.before.epoch + 1) e c.before.historicalWeights with hk | hnone
    · exact .kept (by rw [ha]; exact UInt64.le_of_lt hlt) (by rw [ha]; exact hk)
    · exact .pruned hin (by rw [ha]; exact hlt) (by rw [ha]; exact hnone)

theorem HistoryInv.unwritten_step (ho : ∀ w, s'.weightVotes = some w → w.finalized = false) :
    s'.historicalWeights.lookup s'.epoch = none := by
  have hef := effect_of_step hst
  obtain ⟨rfl, -, -⟩ := hst
  generalize hin : c.input.2 = op, c.out = out at hef
  cases hef with
  | rehashed | registered | absent | evaluationAdded | evaluationRefused | evaluated | notCompleted
  | completed | voteRefused | voteStale | notFinalized => exact hi.unwritten ho
  | voted _ hv _ hf =>
    refine hi.unwritten fun w hw => ?_
    rw [hw, Option.getD_some] at hv
    rw [← hv, hf]
  | finalized ws hv hf => exact absurd (ho _ rfl) (by simp)
  | epochEnded =>
    have hlt := lt_add_one (hc.2 hin)
    rw [Option.eq_none_iff_forall_ne_some]
    intro ws hws
    -- an entry of the new epoch would have been there, beyond the epoch of the state
    rcases lookup_pruned (c.before.epoch + 1) (c.before.epoch + 1) c.before.historicalWeights with
      hk | hnone
    · have hle := hi.bound _ ws (hk.symm.trans hws)
      exact absurd hlt (UInt64.not_lt.mpr hle)
    · have hsm := hnone.symm.trans hws
      cases hsm

theorem HistoryInv.step : HistoryInv s' where
  current := currentVotes_of_step hst hc.1 hi.current
  bound := by
    intro e ws hws
    have hen := hi.entryStep hst hc e
    obtain ⟨rfl, rfl, -⟩ := hst
    cases hen with
    | kept he h => exact UInt64.le_trans (hi.bound e ws (h ▸ hws)) he
    | written he hep => exact UInt64.le_of_eq (he.symm.trans hep.symm)
    | pruned _ _ h =>
      rw [h] at hws
      cases hws
  unwritten := hi.unwritten_step hst hc

end

def Settled (e : UInt64) (ws : Weights) (s : ChainState F) : Prop :=
  s.historicalWeights.lookup e = some ws ∨ (s.historicalWeights.lookup e = none ∧ e < s.epoch)

include hi hst hc in
theorem HistoryInv.settled_step {e : UInt64} {ws : Weights} (hs : Settled e ws s) :
    Settled e ws s' := by
  have hen := hi.entryStep hst hc e
  obtain ⟨rfl, rfl, -⟩ := hst
  have hle : e ≤ c.before.epoch := by
    rcases hs with hsm | ⟨-, hlt⟩
    · exact hi.bound e ws hsm
    · exact UInt64.le_of_lt hlt
  cases hen with
  | kept he h =>
    rcases hs with hsm | ⟨hn, hlt⟩
    · exact Or.inl (h.trans hsm)
    · exact Or.inr ⟨h.trans hn, UInt64.lt_of_lt_of_le hlt he⟩
  | written he _ h =>
    rcases hs with hsm | ⟨-, hlt⟩
    · rw [h] at hsm
      cases hsm
    · exact absurd (he ▸ hlt) (UInt64.lt_irrefl _)
  | pruned _ he h => exact Or.inr ⟨h, UInt64.lt_of_le_of_lt hle he⟩

end

/-- **Final weights are immutable**, in every run in which a signed vote that finds no container is
for the epoch of the state and the epochs are not used up.  A call keeps an entry of the history or,
if it is `next_epoch`, removes it; it writes for the epoch of the state or an earlier one; and an
entry that was there once is later the same or gone. -/
theorem history_immutable {F : Type} [F64 F] (C : Crypto) (now : Int) (sudoKey : Hotkey)
    (netuid : UInt16) (l : List (StateCall F)) (s : ChainState F)
    (h : StateRun C (withSudo C now sudoKey netuid) l s)
    (hc : ∀ c ∈ l, InOrder C c) :
    (∀ c ∈ l, ∀ e ws, c.before.historicalWeights.lookup e = some ws →
      c.after.historicalWeights.lookup e = some ws ∨
        (c.input.2 = .nextEpoch ∧ c.after.historicalWeights.lookup e = none)) ∧
    (∀ c ∈ l, ∀ e ws, c.after.historicalWeights.lookup e = some ws →
      c.before.historicalWeights.lookup e ≠ some ws → e ≤ c.before.epoch) ∧
    ∀ l₁ l₂ s₁, l = l₁ ++ l₂ → StateRun C (withSudo C now sudoKey netuid) l₁ s₁ →
      StateRun C s₁ l₂ s → ∀ e ws, s₁.historicalWeights.lookup e = some ws →
        s.historicalWeights.lookup e = some ws ∨ s.historicalWeights.lookup e = none := by
  have hiv0 : HistoryInv (withSudo C now sudoKey netuid : ChainState F) :=
    ⟨currentVotes_withSudo C now sudoKey netuid, fun e ws h => (by cases h), fun _ => rfl⟩
  have hen : ∀ c ∈ l, ∀ e, EntryStep c e := by
    refine Run.labels hiv0 ?_ (Run.restrict h hc)
    rintro s c s' hi ⟨hst, hor⟩
    exact ⟨hi.entryStep hst hor, hi.step hst hor⟩
  refine ⟨?_, ?_, ?_⟩
  · intro c hm e ws hws
    cases hen c hm e with
    | kept _ hk => exact Or.inl (hk.trans hws)
    | written _ _ hnn =>
      rw [hnn] at hws
      cases hws
    | pruned hin _ hnn => exact Or.inr ⟨hin, hnn⟩
  · intro c hm e ws hws hn
    cases hen c hm e with
    | kept _ hk => exact absurd (hk.symm.trans hws) hn
    | written he => exact UInt64.le_of_eq he.symm
    | pruned _ _ hnn =>
      rw [hnn] at hws
      cases hws
  · rintro l₁ l₂ s₁ rfl h1 h2 e ws hws
    have hiv1 : HistoryInv s₁ := by
      refine Run.guarded hiv0 ?_ h1 fun c hm => hc c (List.mem_append_left _ hm)
      intro s c s' hi hor hst
      exact hi.step hst hor
    have hls : HistoryInv s ∧ Settled e ws s := by
      refine Run.guarded (P := fun t => HistoryInv t ∧ Settled e ws t) ⟨hiv1, Or.inl hws⟩ ?_ h2
        fun c hm => hc c (List.mem_append_right _ hm)
      rintro t c t' ⟨hi, hse⟩ hor hst
      exact ⟨hi.step hst hor, hi.settled_step hst hor hse⟩
    rcases hls.2 with hsm | ⟨hnn, -⟩
    · exact Or.inl hsm
    · exact Or.inr hnn

/-- Two epochs, each finalized with one vote. -/
theorem history_immutable_sample :
    let run := sampleTrace [.updateValidator (.ofByte 1) 5, sampleVote 1 [(0, 1)] 0,
      .finalizeWeights, .nextEpoch, sampleVote 1 [(1, 1)] 1, .finalizeWeights]
    run.2.historicalWeights.lookup 0 = some [(0, 65535)] ∧
      ∀ c ∈ run.1, ∀ e ws, c.before.historicalWeights.lookup e = some ws →
        c.after.historicalWeights.lookup e = some ws ∨
          (c.input.2 = .nextEpoch ∧ c.after.historicalWeights.lookup e = none) :=
  ⟨by decide +kernel, (history_immutable sampleCrypto 0 _ 1 _ _ (stateRun_sampleTrace _)
    (by decide +kernel)).1⟩

/-- **A late vote rewrites the history.**  After epoch 0 is finalized and over, a second vote for it
makes a new container, and it is finalized again with other weights. -/
theorem history_immutable_late_vote :
    ¬ ∀ (C : Crypto) (now : Int) (sudoKey : Hotkey) (netuid : UInt16) (l : List (StateCall ℚ))
      (s : ChainState ℚ), StateRun C (withSudo C now sudoKey netuid) l s →
      ∀ c ∈ l, ∀ e ws, c.before.historicalWeights.lookup e = some ws →
        c.after.historicalWeights.lookup e = some ws ∨
          (c.input.2 = .nextEpoch ∧ c.after.historicalWeights.lookup e = none) := by
  intro h
  have hrun := stateRun_sampleTrace [.updateValidator (.ofByte 1) 5, sampleVote 1 [(0, 1)] 0,
    .finalizeWeights, .nextEpoch, sampleVote 1 [(1, 1)] 0, .finalizeWeights]
  have ha := fun c hc => h _ _ _ _ _ _ hrun c hc 0 [(0, 65535)]
  revert ha
  decide +kernel

end Platform.State
