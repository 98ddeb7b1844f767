import Platform.Consensus.Invariant

/-!
# A network of engines

`Sys` holds the engines of the validators and the log of the calls that the correct ones have made.
A step is one call on the engine of one correct validator (`SysStep`).  What a call is given is
arbitrary: messages may be lost, repeated, reordered and made up.  The one thing that the rest of
the network cannot do is to forge (`Unforgeable`): a signature that verifies under the key of a
correct validator was made by its engine.
-/

namespace Platform.Consensus
open Lib Platform.Core

/-! ## signatures -/

def signatureOf : Outcome Output → Option (Bytes × Bytes)
  | .ok (.proposal p) => some (p.signingBytes, p.signature)
  | .ok (.prepare p) => some (p.signingBytes, p.signature)
  | .ok (.prePrepare p) => some (p.signingBytes, p.signature)
  | .ok (.commit (some c)) => some (c.signingBytes, c.signature)
  | .ok (.viewChange vc) => some (vc.signingBytes, vc.signature)
  | .ok (.newView (some m)) => some (m.signingBytes, m.signature)
  | _ => none

def signedVote : Outcome Output → Option (ViewNumber × SequenceNumber × Bytes32)
  | .ok (.proposal p) => some (p.view, p.sequence, p.proposal.dataHash)
  | .ok (.prepare p) => some (p.view, p.sequence, p.proposalHash)
  | .ok (.prePrepare p) => some (p.view, p.sequence, p.proposalHash)
  | .ok (.commit (some c)) => some (c.view, c.sequence, c.proposalHash)
  | _ => none

theorem signedVote_of_signatureOf {out : Outcome Output} {v : ViewNumber} {s : SequenceNumber}
    {hash : Bytes32} {σ : Bytes} (h : signatureOf out = some (voteBytes v s hash, σ)) :
    signedVote out = some (v, s, hash) := by
  have hvt : ∀ (v' : ViewNumber) (s' : SequenceNumber) (hash' : Bytes32) (σ' : Bytes),
      some (voteBytes v' s' hash', σ') = some (voteBytes v s hash, σ) →
      some (v', s', hash') = some (v, s, hash) := by
    intro v' s' hash' σ' he
    obtain ⟨rfl, rfl, rfl⟩ := voteBytes_inj (Prod.mk.inj (Option.some.inj he)).1
    rfl
  match out, h with
  | .ok (.proposal p), h => exact hvt _ _ _ _ h
  | .ok (.prepare p), h => exact hvt _ _ _ _ h
  | .ok (.prePrepare p), h => exact hvt _ _ _ _ h
  | .ok (.commit (some c)), h => exact hvt _ _ _ _ h
  | .ok (.viewChange vc), h =>
    have he : vc.signingBytes = voteBytes v s hash := (Prod.mk.inj (Option.some.inj h)).1
    exact absurd he.symm (voteBytes_ne_viewChangeBytes _ _ _ _ _)
  | .ok (.newView (some m)), h =>
    have he : m.signingBytes = voteBytes v s hash := (Prod.mk.inj (Option.some.inj h)).1
    exact absurd he.symm (voteBytes_ne_newViewBytes _ _ _ _)

def presented : Op → List (Hotkey × Bytes × Bytes)
  | .handleProposal p => [(p.proposer, p.signingBytes, p.signature)]
  | .handlePrepare p => [(p.validator, p.signingBytes, p.signature)]
  | .handleCommit c => [(c.validator, c.signingBytes, c.signature)]
  | .handleViewChange vc =>
    (vc.validator, vc.signingBytes, vc.signature) ::
      match vc.preparedProof with
      | none => []
      | some proof =>
        (proof.prePrepare.leader, proof.prePrepare.signingBytes, proof.prePrepare.signature) ::
          proof.prepares.map fun p => (p.validator, p.signingBytes, p.signature)
  | .handleNewView m =>
    (m.leader, m.signingBytes, m.signature) ::
      m.viewChanges.map fun vc => (vc.validator, vc.signingBytes, vc.signature)
  | _ => []

section
variable {C : Crypto} {kp : Keypair} {evs : List Event} {e e' : Engine} {ev : Event}

/-- **An engine has signed the vote of its active round**: with the proposal or the prepare that
opened it. -/
theorem EngineRun.signedRound (h : EngineRun C kp evs e) {r : ConsensusRound}
    (hr : e.currentRound = some r) :
    ∃ ev ∈ evs, signedVote ev.out = some (r.view, r.sequence, r.proposalHash) := by
  revert r
  refine Run.logInvariant (P := fun evs e => ∀ {r : ConsensusRound}, e.currentRound = some r →
    ∃ ev ∈ evs, signedVote ev.out = some (r.view, r.sequence, r.proposalHash)) ?_ ?_ h
  · intro r hr
    cases hr
  · intro l e ev e' hrun hP hs r' hr'
    have hev : ev ∈ l ++ [ev] := List.mem_append_right _ List.mem_cons_self
    have hst := EngineRun.stateInv hrun
    -- the round was there before, with the same vote
    have ho : ∀ r, e.currentRound = some r → r'.view = r.view → r'.sequence = r.sequence →
        r'.proposalHash = r.proposalHash →
        ∃ x ∈ l ++ [ev], signedVote x.out = some (r'.view, r'.sequence, r'.proposalHash) := by
      intro r hr hv hq hh
      obtain ⟨x, hx, hsg⟩ := hP hr
      rw [hv, hq, hh]
      exact ⟨x, List.mem_append_left _ hx, hsg⟩
    obtain ⟨env, pre, op, out, after⟩ := ev
    have ht : Trans C env e op out e' := hs.trans
    cases ht with
    | proposed ct data hl hsd | accepted p hc =>
      refine ⟨_, hev, ?_⟩
      rw [← Option.some.inj hr']
      rfl
    | prePrepared v q hash =>
      obtain ⟨r, hr, rfl⟩ := Option.map_eq_some_iff.mp hr'
      exact ho r hr rfl rfl rfl
    | prepareCounted r p hr | prepareQuorum r p c hr | commitCounted r c hr =>
      obtain rfl := Option.some.inj hr'
      exact ho r hr rfl rfl rfl
    | decided | newViewFormed | newViewEntered => cases hr'
    | noProposal r c err hr hp => exact absurd hp (hst.round r hr).proposal_ne_none
    | overflow => exact absurd rfl hs.2.2.2
    | _ => exact ho r' hr' rfl rfl rfl

theorem EngineStep.commitCreated {c : CommitMessage} (h : EngineStep C e ev e')
    (hot : ev.out = .ok (.commit (some c))) :
    c.validator = e.keypair.hotkey ∧
      ∃ r r', e.currentRound = some r ∧ e'.currentRound = some r' ∧ r.phase = .prePrepare ∧
        r'.phase = .prepared ∧ ev.env.quorumSize ≤ r'.prepares.size ∧ r'.view = r.view ∧
        r'.sequence = r.sequence ∧ r'.proposalHash = r.proposalHash ∧
        c.view = r.view ∧ c.sequence = r.sequence ∧ c.proposalHash = r.proposalHash := by
  obtain ⟨env, pre, op, out, after⟩ := ev
  have ht : Trans C env e op out e' := h.trans
  have ho : out = .ok (.commit (some c)) := hot
  subst ho
  cases ht with
  | prepareQuorum r p _ hr hc hn hq hp hcm =>
    subst hcm
    exact ⟨rfl, r, _, hr, rfl, hp, rfl, hq, rfl, rfl, rfl, rfl, rfl, rfl⟩

end

/-! ## steps of the network -/

structure Sys where
  engine : Hotkey → Engine
  log : List (Hotkey × Event)

def Sys.init : Sys := ⟨fun k => Engine.new ⟨k⟩, []⟩

/-- the network after the call `a` -/
def Sys.after (s : Sys) (a : Hotkey × Event) : Sys :=
  ⟨Function.update s.engine a.1 a.2.after, s.log ++ [a]⟩

/-- What a call is given holds no forged signature of a correct validator. -/
def Unforgeable (C : Crypto) (correct : Finset Hotkey) (log : List (Hotkey × Event)) (op : Op) :
    Prop :=
  ∀ t ∈ presented op, t.1 ∈ correct → C.verify t.2.2 t.2.1 t.1 = true →
    ∃ a ∈ log, a.1 = t.1 ∧ signatureOf a.2.out = some t.2

instance (C : Crypto) (correct : Finset Hotkey) (log : List (Hotkey × Event)) (op : Op) :
    Decidable (Unforgeable C correct log op) :=
  inferInstanceAs (Decidable (∀ t ∈ presented op, t.1 ∈ correct → C.verify t.2.2 t.2.1 t.1 = true →
    ∃ a ∈ log, a.1 = t.1 ∧ signatureOf a.2.out = some t.2))

structure SysStep (C : Crypto) (correct : Finset Hotkey) (sees : Hotkey → Env → Prop) (s : Sys)
    (a : Hotkey × Event) (s' : Sys) : Prop where
  actor : a.1 ∈ correct
  sees : sees a.1 a.2.env
  call : EngineStep C (s.engine a.1) a.2 a.2.after
  unforgeable : Unforgeable C correct s.log a.2.op
  next : s' = s.after a

def SysRun (C : Crypto) (correct : Finset Hotkey) (sees : Hotkey → Env → Prop)
    (l : List (Hotkey × Event)) (s : Sys) : Prop :=
  Run (SysStep C correct sees) Sys.init l s

/-- the calls on the engine of `k` -/
def eventsOf (k : Hotkey) (log : List (Hotkey × Event)) : List Event :=
  (log.filter fun a => a.1 = k).map Prod.snd

theorem mem_eventsOf {k : Hotkey} {log : List (Hotkey × Event)} {ev : Event} :
    ev ∈ eventsOf k log ↔ (k, ev) ∈ log := by
  rw [eventsOf, List.mem_map]
  constructor
  · rintro ⟨⟨k', ev'⟩, ha, rfl⟩
    obtain ⟨hm, hk⟩ := List.mem_filter.mp ha
    obtain rfl : k' = k := of_decide_eq_true hk
    exact hm
  · intro h
    exact ⟨(k, ev), List.mem_filter.mpr ⟨h, decide_eq_true rfl⟩, rfl⟩

theorem eventsOf_snoc_self (log : List (Hotkey × Event)) (a : Hotkey × Event) :
    eventsOf a.1 (log ++ [a]) = eventsOf a.1 log ++ [a.2] := by
  simp [eventsOf]

theorem eventsOf_snoc_other {k : Hotkey} (log : List (Hotkey × Event)) {a : Hotkey × Event}
    (h : k ≠ a.1) : eventsOf k (log ++ [a]) = eventsOf k log := by
  simp [eventsOf, h.symm]

section
variable {C : Crypto} {good : Finset Hotkey} {sees : Hotkey → Env → Prop}
  {l : List (Hotkey × Event)} {s s' : Sys} {a : Hotkey × Event}

variable (h : SysStep C good sees s a s')

section
include h

theorem SysStep.log : s'.log = s.log ++ [a] := by
  rw [h.next]
  rfl

theorem SysStep.engine_self : s'.engine a.1 = a.2.after := by
  rw [h.next]
  exact Function.update_self _ _ _

theorem SysStep.engine_other {k : Hotkey} (hk : k ≠ a.1) : s'.engine k = s.engine k := by
  rw [h.next]
  exact Function.update_of_ne hk _ _

theorem SysStep.log_subset : s.log ⊆ s'.log := by
  rw [h.log]
  exact List.subset_append_left _ _

theorem SysStep.mem_log_iff {b : Hotkey × Event} : b ∈ s'.log ↔ b ∈ s.log ∨ b = a := by
  rw [h.log, List.mem_append, List.mem_singleton]

theorem SysStep.mem_log : a ∈ s'.log := by
  exact h.mem_log_iff.mpr (Or.inr rfl)

end

/-- **Each engine has a run of its own.** -/
theorem SysRun.engineRun (h : SysRun C good sees l s) (k : Hotkey) :
    EngineRun C ⟨k⟩ (eventsOf k s.log) (s.engine k) := by
  refine Run.invariant (P := fun s => EngineRun C ⟨k⟩ (eventsOf k s.log) (s.engine k)) ?_ ?_ h
  · exact Run.nil
  · intro s a s' hk hs
    rw [hs.log]
    by_cases hka : k = a.1
    · subst hka
      rw [eventsOf_snoc_self, hs.engine_self]
      exact Run.snoc hk hs.call
    · rw [eventsOf_snoc_other _ hka, hs.engine_other hka]
      exact hk

theorem SysRun.actors (h : SysRun C good sees l s) :
    ∀ a ∈ s.log, a.1 ∈ good ∧ sees a.1 a.2.env := by
  refine Run.invariant (P := fun s => ∀ a ∈ s.log, a.1 ∈ good ∧ sees a.1 a.2.env) ?_ ?_ h
  · intro a ha
    cases ha
  · intro s a s' hP hs b hb
    rcases hs.mem_log_iff.mp hb with hb | rfl
    · exact hP b hb
    · exact ⟨hs.actor, hs.sees⟩

theorem SysRun.calls (h : SysRun C good sees l s) :
    ∀ a ∈ s.log, EngineStep C a.2.before a.2 a.2.after ∧ a.2.before.keypair.hotkey = a.1 := by
  refine Run.logInvariant (P := fun _ s => ∀ a ∈ s.log,
    EngineStep C a.2.before a.2 a.2.after ∧ a.2.before.keypair.hotkey = a.1) ?_ ?_ h
  · intro a ha
    cases ha
  · intro l s a s' hr hP hs b hb
    rcases hs.mem_log_iff.mp hb with hb | rfl
    · exact hP b hb
    · have hrun : SysRun C good sees l s := hr
      have hbf : b.2.before = s.engine b.1 := hs.call.1
      rw [hbf, (hrun.engineRun b.1).stateInv.keypair]
      exact ⟨hs.call, rfl⟩

/-- **Every accepted signature of a correct validator is in the log.** -/
theorem SysRun.genuine (h : SysRun C good sees l s) :
    ∀ a ∈ s.log, Unforgeable C good s.log a.2.op := by
  refine Run.invariant (P := fun s => ∀ a ∈ s.log, Unforgeable C good s.log a.2.op) ?_ ?_ h
  · intro a ha
    cases ha
  · intro s a s' hP hs b hb t ht hc hvr
    have hm : ∃ a ∈ s.log, a.1 = t.1 ∧ signatureOf a.2.out = some t.2 := by
      rcases hs.mem_log_iff.mp hb with hb | rfl
      · exact hP b hb t ht hc hvr
      · exact hs.unforgeable t ht hc hvr
    obtain ⟨x, hx, hsg⟩ := hm
    exact ⟨x, hs.log_subset hx, hsg⟩

end

/-! ## executable runs -/

def Sys.call (C : Crypto) (s : Sys) (a : Hotkey × Env × Op) : (Hotkey × Event) × Sys :=
  ((a.1, (Consensus.call C (s.engine a.1) a.2).1),
    s.after (a.1, (Consensus.call C (s.engine a.1) a.2).1))

def sysCalls (C : Crypto) (as : List (Hotkey × Env × Op)) : List (Hotkey × Event) × Sys :=
  exec (Sys.call C) Sys.init as

section
variable (C : Crypto) (correct : Finset Hotkey) (sees : Hotkey → Env → Prop)
  (good : Sys → Hotkey × Event → Prop)

def Admissible (s : Sys) (a : Hotkey × Env × Op) : Prop :=
  a.1 ∈ correct ∧ sees a.1 a.2.1 ∧ (step C a.2.1 (s.engine a.1) a.2.2).1 ≠ .overflow ∧
    Unforgeable C correct s.log a.2.2 ∧ good s (s.call C a).1

instance [∀ k env, Decidable (sees k env)] [∀ s a, Decidable (good s a)] (s : Sys)
    (a : Hotkey × Env × Op) : Decidable (Admissible C correct sees good s a) :=
  inferInstanceAs (Decidable (_ ∧ _ ∧ _ ∧ _ ∧ _))

def GoodRun (l : List (Hotkey × Event)) (s : Sys) : Prop :=
  Run (fun s a s' => SysStep C correct sees s a s' ∧ good s a) Sys.init l s

variable {C correct sees good}

theorem GoodRun.sysRun {l : List (Hotkey × Event)} {s : Sys} (h : GoodRun C correct sees good l s) :
    SysRun C correct sees l s := Run.mono (fun _ _ _ hs => hs.1) h

theorem goodRun_calls (as : List (Hotkey × Env × Op))
    (h : Admits (Sys.call C) (Admissible C correct sees good) Sys.init as) :
    GoodRun C correct sees good (sysCalls C as).1 (sysCalls C as).2 := by
  refine Run.of_exec (Sys.call C) _ ?_ as Sys.init h
  rintro s a ⟨ha, hss, hrt, hu, hg⟩
  exact ⟨⟨ha, hss, ⟨rfl, rfl, rfl, hrt⟩, hu, rfl⟩, hg⟩

end

/-! ## the network of four -/

def SeesAll (V : Finset Hotkey) (stake : Hotkey → UInt64) (_ : Hotkey) (env : Env) : Prop :=
  env.validatorSet.validators.keySet = V ∧ env.validatorSet.activeHotkeys env.now = V ∧
    ∀ r ∈ env.validatorSet.validators.values, r.stake = stake r.hotkey

instance (V : Finset Hotkey) (stake : Hotkey → UInt64) (k : Hotkey) (env : Env) :
    Decidable (SeesAll V stake k env) := inferInstanceAs (Decidable (_ ∧ _ ∧ _))

def sampleValidators : Finset Hotkey := {.ofByte 0, .ofByte 1, .ofByte 2, .ofByte 3}

/-- validator `0`, the leader of view `0`, is Byzantine -/
def sampleCorrect : Finset Hotkey := {.ofByte 1, .ofByte 2, .ofByte 3}

def sampleDecides (i j : UInt8) (data : Bytes) : List (Hotkey × Env × Op) :=
  [(.ofByte i, sampleEnv i 1, .handleProposal (sampleProposal .weightUpdate data)),
    (.ofByte j, sampleEnv j 1, .handleProposal (sampleProposal .weightUpdate data)),
    (.ofByte i, sampleEnv i 2, .handlePrepare (samplePrepare 0 data)),
    (.ofByte i, sampleEnv i 2, .handlePrepare (samplePrepare j data)),
    (.ofByte j, sampleEnv j 2, .handlePrepare (samplePrepare 0 data)),
    (.ofByte j, sampleEnv j 2, .handlePrepare (samplePrepare i data)),
    (.ofByte i, sampleEnv i 2, .handleCommit (sampleCommit 0 data)),
    (.ofByte i, sampleEnv i 2, .handleCommit (sampleCommit j data))]

end Platform.Consensus
