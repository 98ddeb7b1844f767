import Platform.State.Steps

/-!
# Evaluations between the two maps

An evaluation record waits in `pending_evaluations` under its submission id until
`finalize_evaluation` moves it to the list of the current epoch.  `add_evaluation` does not look
whether the id is in use, and a second evaluation of a validator replaces the first.
-/

namespace Platform.State
open Lib Platform.Core List HashMap

section
variable {F : Type}

/-- the records in all lists of `completed_evaluations` -/
def ChainState.completedRecords (s : ChainState F) : List (EvaluationRecord F) :=
  s.completedEvaluations.values.flatten

/-- the submission ids in `pending_evaluations` and in all lists of `completed_evaluations` -/
def ChainState.submissionIds (s : ChainState F) : List String :=
  (s.pendingEvaluations.values ++ s.completedRecords).map EvaluationRecord.submissionId

def StateOp.givenRecord : StateOp F → Option (EvaluationRecord F)
  | .addEvaluation r => some r
  | _ => none

/-- the arguments of `add_validator_evaluation` -/
structure GivenEvaluation (F : Type) where
  submissionId : String
  validator : Hotkey
  evaluation : ValidatorEvaluation F
  signature : Bytes

def StateOp.givenEvaluation : StateOp F → Option (GivenEvaluation F)
  | .addValidatorEvaluation id v x sig => some ⟨id, v, x, sig⟩
  | _ => none

variable [F64 F]

def GivenEvaluation.Signed (C : Crypto) (g : GivenEvaluation F) : Prop :=
  checkSigned C g.validator (evaluationSigningBytes g.submissionId g.evaluation.score) g.signature =
    .ok ()

instance (C : Crypto) (g : GivenEvaluation F) : Decidable (g.Signed C) :=
  inferInstanceAs (Decidable (_ = _))

def Orderly (C : Crypto) (c : StateCall F) : Prop :=
  (∀ r ∈ c.input.2.givenRecord, r.submissionId ∉ c.before.submissionIds) ∧
  ∀ g ∈ c.input.2.givenEvaluation, g.Signed C →
    ∀ r ∈ c.before.pendingEvaluations.lookup g.submissionId,
      ∀ y ∈ r.evaluations.lookup g.validator, y = g.evaluation

instance [DecidableEq F] (C : Crypto) (c : StateCall F) : Decidable (Orderly C c) :=
  @instDecidableAnd _ _ (Option.decidableForallMem _) (Option.decidableForallMem _)

end

/-! ## one id, one record -/

section
variable {F : Type}

structure EvaluationInv (s : ChainState F) : Prop where
  keyed : ∀ id r, s.pendingEvaluations.lookup id = some r → r.submissionId = id
  nodup : s.submissionIds.Nodup

variable {r : EvaluationRecord F} {id : String}

theorem mem_submissionIds {s : ChainState F} (hi : EvaluationInv s)
    (hr : s.pendingEvaluations.lookup id = some r) :
    id ∈ s.submissionIds := by
  refine mem_map.mpr ⟨r, mem_append_left _ ?_, hi.keyed id r hr⟩
  exact (mem_values _ _).mpr ⟨id, hr⟩

theorem evaluationInv_withSudo (C : Crypto) (now : Int) (sudoKey : Hotkey) (netuid : UInt16) :
    EvaluationInv (ChainState.withSudo C now sudoKey netuid : ChainState F) where
  keyed := by
    intro id r h
    cases h
  nodup := nodup_nil

variable {s : ChainState F}

theorem EvaluationInv.congr {s' : ChainState F} (hi : EvaluationInv s)
    (hp : s'.pendingEvaluations = s.pendingEvaluations)
    (hc : s'.completedEvaluations = s.completedEvaluations) : EvaluationInv s' where
  keyed := hp ▸ hi.keyed
  nodup := by
    have hn := hi.nodup
    unfold ChainState.submissionIds ChainState.completedRecords at hn ⊢
    rw [hp, hc]
    exact hn

theorem EvaluationInv.added (hi : EvaluationInv s) (hn : r.submissionId ∉ s.submissionIds)
    (C : Crypto) (now : Int) :
    EvaluationInv (s.addEvaluation C now r) where
  keyed := by
    intro id r' h
    rcases (lookup_insert_iff _ _ _ _ _).mp h with ⟨rfl, rfl⟩ | ⟨-, h'⟩
    · rfl
    · exact hi.keyed id r' h'
  nodup := by
    have hnn : s.pendingEvaluations.lookup r.submissionId = none := by
      rw [Option.eq_none_iff_forall_ne_some]
      intro r' hr'
      exact hn (mem_submissionIds hi hr')
    have his : (s.addEvaluation C now r).submissionIds = r.submissionId :: s.submissionIds := by
      show (values (s.pendingEvaluations.insert r.submissionId r) ++ s.completedRecords).map _ = _
      rw [values_insert, erase_of_lookup_none hnn]
      rfl
    rw [his]
    exact nodup_cons.mpr ⟨hn, hi.nodup⟩

theorem EvaluationInv.rewritten {r' : EvaluationRecord F} (hi : EvaluationInv s)
    (hr : s.pendingEvaluations.lookup id = some r) (hid : r'.submissionId = r.submissionId) :
    EvaluationInv { s with pendingEvaluations := s.pendingEvaluations.insert id r' } where
  keyed := by
    intro k q h
    rcases (lookup_insert_iff _ _ _ _ _).mp h with ⟨rfl, rfl⟩ | ⟨-, h'⟩
    · exact hid.trans (hi.keyed _ _ hr)
    · exact hi.keyed k q h'
  nodup := by
    have hpr := ((values_perm_erase hr).append_right s.completedRecords).map
      EvaluationRecord.submissionId
    have hn := hpr.nodup_iff.mp hi.nodup
    show ((values (s.pendingEvaluations.insert id r') ++ s.completedRecords).map _).Nodup
    rw [values_insert, cons_append, map_cons, hid]
    exact hn

theorem EvaluationInv.moved (hi : EvaluationInv s) (hr : s.pendingEvaluations.lookup id = some r)
    (a : F) (t : Int) :
    EvaluationInv { s with
      pendingEvaluations := s.pendingEvaluations.erase id
      completedEvaluations := s.completedEvaluations.insert s.epoch
        ((s.completedEvaluations.lookup s.epoch).getD [] ++ [ChainState.completed r a t]) } where
  keyed := by
    intro k q h
    exact hi.keyed k q ((lookup_erase_iff _ _ _ _).mp h).2
  nodup := by
    have hdn := flatten_values_push s.completedEvaluations s.epoch (ChainState.completed r a t)
    have hbf := ((values_perm_erase hr).append_right s.completedRecords).map
      EvaluationRecord.submissionId
    have ha := ((hdn.append_left (values (s.pendingEvaluations.erase id))).trans
      perm_middle).map EvaluationRecord.submissionId
    -- the aggregate fields do not touch the id, so both sides are the ids of the same records
    exact ha.nodup_iff.mpr (hbf.nodup_iff.mp hi.nodup)

end

section
variable {F : Type} [F64 F] {C : Crypto} {s s' : ChainState F} {c : StateCall F}
  {l : List (StateCall F)}

theorem EvaluationInv.step (hi : EvaluationInv s) (hst : CallStep (stateNext C) s c s')
    (hc : Orderly C c) : EvaluationInv s' := by
  have hef := effect_of_step hst
  obtain ⟨rfl, -, -⟩ := hst
  generalize hin : c.input.2 = op, c.out = out at hef
  cases hef with
  | rehashed | registered | absent | evaluationRefused | notCompleted | voteRefused | voteStale
  | voted | notFinalized | finalized | epochEnded => exact hi.congr rfl rfl
  | evaluationAdded r =>
    refine hi.added (hc.1 r ?_) _ _
    rw [hin]
    rfl
  | @evaluated id v x sig r hs hr =>
    have hid :
        ({ r with evaluations := r.evaluations.insert v x } : EvaluationRecord F).submissionId =
          r.submissionId := rfl
    exact (hi.rewritten hr hid).congr rfl rfl
  | completed a hr => exact (hi.moved hr a _).congr rfl rfl

theorem evaluationInv_of_run {s₀ : ChainState F} (h : StateRun C s₀ l s) (h0 : EvaluationInv s₀)
    (hc : ∀ c ∈ l, Orderly C c) : EvaluationInv s := by
  refine Run.guarded h0 ?_ h hc
  intro s c s' hi hor hst
  exact hi.step hst hor

/-! ## where an evaluation is -/

def Waits (id : String) (v : Hotkey) (x : ValidatorEvaluation F) (s : ChainState F) : Prop :=
  ∃ r, s.pendingEvaluations.lookup id = some r ∧ r.evaluations.lookup v = some x

def Moves (id : String) (v : Hotkey) (x : ValidatorEvaluation F) (d : StateCall F)
    (r' : EvaluationRecord F) : Prop :=
  ∃ t r a, d.input.2 = .finalizeEvaluation t id ∧ d.before.pendingEvaluations.lookup id = some r ∧
    r.evaluations.lookup v = some x ∧ r' = ChainState.completed r a t ∧
    d.after.pendingEvaluations.lookup id = none ∧
    d.after.completedEvaluations.lookup d.before.epoch =
      some ((d.before.completedEvaluations.lookup d.before.epoch).getD [] ++ [r'])

variable {v : Hotkey} {x : ValidatorEvaluation F}

theorem waits_of_accepted {id : String} {sig : Bytes} (hst : CallStep (stateNext C) s c s')
    (hin : c.input.2 = .addValidatorEvaluation id v x sig)
    (ho : c.out = .result (.ok ())) : Waits id v x s' := by
  have hef := effect_of_step hst
  rw [hin, ho] at hef
  cases hef with
  | registered hop | absent hop => cases hop
  | evaluated => exact ⟨_, AList.lookup_insert _, AList.lookup_insert _⟩

theorem waits_step {id : String} (hi : EvaluationInv s) (hst : CallStep (stateNext C) s c s')
    (hc : Orderly C c) (hw : Waits id v x s) :
    Waits id v x s' ∨ ∃ r', Moves id v x c r' ∧ r' ∈ s'.completedRecords := by
  have hef := effect_of_step hst
  obtain ⟨rfl, ha, -⟩ := hst
  generalize hin : c.input.2 = op, c.out = out at hef
  obtain ⟨r, hr, hx⟩ := hw
  cases hef with
  | rehashed | registered | absent | evaluationRefused | notCompleted | voteRefused | voteStale
  | voted | notFinalized | finalized | epochEnded => exact Or.inl ⟨r, hr, hx⟩
  | evaluationAdded q =>
    have hne : id ≠ q.submissionId := by
      rintro rfl
      refine hc.1 q ?_ (mem_submissionIds hi hr)
      rw [hin]
      rfl
    exact Or.inl ⟨r, (AList.lookup_insert_ne hne).trans hr, hx⟩
  | @evaluated id' v' x' sig r' hs hr' =>
    by_cases hid : id = id'
    · subst hid
      obtain rfl : r = r' := Option.some_inj.mp (hr.symm.trans hr')
      refine Or.inl ⟨_, AList.lookup_insert _, (lookup_insert_iff _ _ _ _ _).mpr ?_⟩
      by_cases hv : v = v'
      · subst hv
        exact Or.inl ⟨rfl, hc.2 ⟨id, v, x', sig⟩ (by rw [hin]; rfl) hs r hr x hx⟩
      · exact Or.inr ⟨hv, hx⟩
    · exact Or.inl ⟨r, (AList.lookup_insert_ne hid).trans hr, hx⟩
  | @completed t id' r' a hr' =>
    by_cases hid : id = id'
    · subst hid
      obtain rfl : r = r' := Option.some_inj.mp (hr.symm.trans hr')
      refine Or.inr ⟨ChainState.completed r a t, ⟨t, r, a, hin, hr, hx, rfl, ?_, ?_⟩, ?_⟩
      · rw [ha]
        exact AList.lookup_erase _ _
      · rw [ha]
        exact AList.lookup_insert _
      · exact (flatten_values_push _ _ _).mem_iff.mpr mem_cons_self
    · exact Or.inl ⟨r, (AList.lookup_erase_ne hid).trans hr, hx⟩

theorem completedRecords_step (hst : CallStep (stateNext C) s c s') {r : EvaluationRecord F}
    (hr : r ∈ s.completedRecords) : r ∈ s'.completedRecords := by
  have hef := effect_of_step hst
  generalize c.input.2 = op, c.out = out at hef
  cases hef with
  | rehashed | registered | absent | evaluationAdded | evaluationRefused | evaluated | notCompleted
  | voteRefused | voteStale | voted | notFinalized | finalized | epochEnded => exact hr
  | completed => exact (flatten_values_push _ _ _).mem_iff.mpr (mem_cons_of_mem _ hr)

theorem waits_run {id : String} (hi : EvaluationInv s) (h : StateRun C s l s')
    (hc : ∀ c ∈ l, Orderly C c) (hw : Waits id v x s) :
    Waits id v x s' ∨ ∃ d ∈ l, ∃ r', Moves id v x d r' ∧ r' ∈ s'.completedRecords := by
  have ha : EvaluationInv s' ∧
      (Waits id v x s' ∨ ∃ d ∈ l, ∃ r', Moves id v x d r' ∧ r' ∈ s'.completedRecords) := by
    refine Run.logInvariant (P := fun l t => EvaluationInv t ∧
      (Waits id v x t ∨ ∃ d ∈ l, ∃ r', Moves id v x d r' ∧ r' ∈ t.completedRecords))
      ⟨hi, Or.inl hw⟩ ?_ (Run.restrict h hc)
    rintro l t c t' - ⟨hiv, hwh⟩ ⟨hst, hor⟩
    refine ⟨hiv.step hst hor, ?_⟩
    rcases hwh with hwt | ⟨d, hd, r', hm, hr'⟩
    · rcases waits_step hiv hst hor hwt with hwt' | ⟨r', hm, hr'⟩
      · exact Or.inl hwt'
      · exact Or.inr ⟨c, mem_append_right _ mem_cons_self, r', hm, hr'⟩
    · exact Or.inr ⟨d, mem_append_left _ hd, r', hm, completedRecords_step hst hr'⟩
  exact ha.2

end

/-- **Evaluations are not lost or counted twice**, in every run in which a record that is added has
a new submission id and a signed evaluation replaces no other one.  An id occurs at most once in the
two maps together, and an accepted evaluation is in its pending record until `finalize_evaluation`
moves that record, with only the aggregate fields changed, to the completed ones, where it stays. -/
theorem evaluations_conserved {F : Type} [F64 F] (C : Crypto) (now : Int) (sudoKey : Hotkey)
    (netuid : UInt16) (l : List (StateCall F)) (s : ChainState F)
    (h : StateRun C (ChainState.withSudo C now sudoKey netuid) l s)
    (hc : ∀ c ∈ l, Orderly C c) :
    s.submissionIds.Nodup ∧
    ∀ l₁ c l₂, l = l₁ ++ c :: l₂ → ∀ id v x sig,
      c.input.2 = .addValidatorEvaluation id v x sig → c.out = .result (.ok ()) →
      Waits id v x s ∨ ∃ d ∈ l₂, ∃ r', Moves id v x d r' ∧ r' ∈ s.completedRecords := by
  have h0 : EvaluationInv (ChainState.withSudo C now sudoKey netuid : ChainState F) :=
    evaluationInv_withSudo C now sudoKey netuid
  refine ⟨(evaluationInv_of_run h h0 hc).nodup, ?_⟩
  rintro l₁ c l₂ rfl id v x sig hin ho
  obtain ⟨s₁, h1, h2⟩ := Run.split h
  obtain ⟨s₂, hst, h3⟩ := Run.head h2
  have hiv : EvaluationInv s₂ :=
    (evaluationInv_of_run h1 h0 fun b hb => hc b (mem_append_left _ hb)).step hst
      (hc c (mem_append_right _ mem_cons_self))
  exact waits_run hiv h3
    (fun b hb => hc b (mem_append_right _ (mem_cons_of_mem _ hb)))
    (waits_of_accepted hst hin ho)

def sampleRecord (id : String) : EvaluationRecord ℚ :=
  ⟨id, ⟨replicate 16 0, rfl⟩, .ofByte 9, "agent", ∅, none, false, 0, none⟩

/-- Two submissions; the first one is evaluated by a validator with stake and finalized. -/
theorem evaluations_conserved_sample :
    let run := sampleTrace [.updateValidator (.ofByte 1) 5, .addEvaluation (sampleRecord "a"),
      sampleEvaluation 1 "a" ⟨1 / 2, 7, 0, []⟩, .addEvaluation (sampleRecord "b"),
      .finalizeEvaluation 4 "a", .nextEpoch]
    run.2.completedRecords.map (fun r => (r.submissionId, r.aggregatedScore)) =
        [("a", some (1 / 2))] ∧
      run.2.submissionIds.Nodup :=
  ⟨by decide +kernel, (evaluations_conserved sampleCrypto 0 _ 1 _ _ (stateRun_sampleTrace _)
    (by decide +kernel)).1⟩

def replacedOps : List (StateOp ℚ) :=
  [.addEvaluation (sampleRecord "a"), sampleEvaluation 1 "a" ⟨1 / 2, 7, 0, []⟩,
    .addEvaluation (sampleRecord "a")]

/-- **A record that is added again loses its evaluations.** -/
theorem evaluations_conserved_replaced :
    ¬ ∀ (C : Crypto) (now : Int) (sudoKey : Hotkey) (netuid : UInt16) (l : List (StateCall ℚ))
      (s : ChainState ℚ), StateRun C (ChainState.withSudo C now sudoKey netuid) l s →
      s.submissionIds.Nodup ∧
      ∀ l₁ c l₂, l = l₁ ++ c :: l₂ → ∀ id v x sig,
        c.input.2 = .addValidatorEvaluation id v x sig → c.out = .result (.ok ()) →
        Waits id v x s ∨ ∃ d ∈ l₂, ∃ r', Moves id v x d r' ∧ r' ∈ s.completedRecords := by
  intro h
  have hdn : (sampleTrace replacedOps).2.completedRecords = [] := by decide +kernel
  rcases (h _ _ _ _ _ _ (stateRun_sampleTrace replacedOps)).2 [_] _ [_] rfl "a" _ _ _ rfl
    (by decide +kernel) with ⟨r, hr, hx⟩ | ⟨d, -, r', -, hr'⟩
  · have hem : r.evaluations.lookup (.ofByte 1) = none := by
      cases hr
      rfl
    have hsm := hem.symm.trans hx
    cases hsm
  · rw [hdn] at hr'
    cases hr'

end Platform.State
