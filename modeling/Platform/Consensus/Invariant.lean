import Platform.Consensus.Steps

/-!
# The run invariant of one engine

For every run of one engine, whatever it is fed with and however the rest of the node changes
between two calls, the active round is the one of the current view and of the next sequence
(`RoundOk`), the decided sequences are `1, .., next_sequence - 1` and never change (`StateInv`), and
a decision lists the signatures of a quorum of commits (`DecisionOk`).

`engine_run_invariant` puts the four together.
-/

namespace Platform.Consensus
open Lib Platform.Core

/-! ## the state -/

variable (C : Crypto) (kp : Keypair)

structure RoundOk (v : ViewNumber) (s : SequenceNumber) (r : ConsensusRound) : Prop where
  view : r.view = v
  sequence : r.sequence = s
  proposal : ∃ p, r.proposal = some p ∧ r.proposalHash = C.sha256 p.proposal.data ∧
    p.proposal.dataHash = r.proposalHash

variable {r : ConsensusRound} {s : SequenceNumber}

theorem RoundOk.proposal_ne_none {C : Crypto} {v : ViewNumber}
    (h : RoundOk C v s r) : r.proposal ≠ none := by
  obtain ⟨p, hp, -⟩ := h.proposal
  rw [hp]
  exact Option.some_ne_none p

structure StateInv (e : Engine) : Prop where
  keypair : e.keypair = kp
  round : ∀ r, e.currentRound = some r → RoundOk C e.currentView e.nextSequence r
  pos : 1 ≤ e.nextSequence.toNat
  keys : ∀ s, s ∈ e.decisions ↔ 1 ≤ s.toNat ∧ s.toNat < e.nextSequence.toNat

theorem toNat_succ {x : UInt64} (h : x ≠ UInt64.ofNat (2 ^ 64 - 1)) :
    (x + 1).toNat = x.toNat + 1 := by
  have hlt := x.toNat_lt
  have hne : x.toNat ≠ 2 ^ 64 - 1 := by
    intro he
    apply h
    apply UInt64.toNat.inj
    rw [he]
    rfl
  rw [UInt64.toNat_add, UInt64.toNat_one]
  omega

section
variable {C : Crypto} {kp : Keypair} {e e' : Engine} {env : Env} {op : Op} {out : Outcome Output}

theorem stateInv_new (C : Crypto) (kp : Keypair) : StateInv C kp (Engine.new kp) where
  keypair := rfl
  round := by
    intro r h
    cases h
  pos := le_refl 1
  keys := by
    intro s
    have hne : s ∉ (Engine.new kp).decisions := AList.notMem_empty s
    have h1 : (Engine.new kp).nextSequence.toNat = 1 := rfl
    constructor
    · intro h
      exact absurd h hne
    · intro h
      omega

theorem StateInv.setRound (h : StateInv C kp e) (hr : RoundOk C e.currentView e.nextSequence r) :
    StateInv C kp { e with currentRound := some r } where
  keypair := h.keypair
  round := by
    intro r' he
    obtain rfl : r = r' := Option.some.inj he
    exact hr
  pos := h.pos
  keys := h.keys

theorem StateInv.enterView (h : StateInv C kp e) (v : ViewNumber) :
    StateInv C kp (enterView e v) where
  keypair := h.keypair
  round := by
    intro r he
    cases he
  pos := h.pos
  keys := h.keys

theorem StateInv.decided (h : StateInv C kp e) (txt : ProposalContent)
    (hs : r.sequence = e.nextSequence) (ho : e.nextSequence ≠ UInt64.ofNat (2 ^ 64 - 1)) :
    StateInv C kp (decidedEngine e r txt) where
  keypair := h.keypair
  round := by
    intro r' he
    cases he
  pos := by
    show 1 ≤ (e.nextSequence + 1).toNat
    rw [toNat_succ ho]
    omega
  keys := by
    intro s
    show s ∈ AList.insert r.sequence _ e.decisions ↔
      1 ≤ s.toNat ∧ s.toNat < (e.nextSequence + 1).toNat
    have hp := h.pos
    rw [AList.mem_insert, h.keys, toNat_succ ho, hs]
    constructor
    · rintro (rfl | hlt)
      · omega
      · omega
    · intro hlt
      by_cases he : s = e.nextSequence
      · exact Or.inl he
      · have hne : s.toNat ≠ e.nextSequence.toNat := fun hn => he (UInt64.toNat.inj hn)
        exact Or.inr (by omega)

theorem roundOk_startRound (C : Crypto) (env : Env) (e : Engine) (p : ConsensusProposal)
    (h : C.sha256 p.proposal.data = p.proposal.dataHash) :
    RoundOk C e.currentView e.nextSequence (startRound env e p (C.sha256 p.proposal.data)) :=
  ⟨rfl, rfl, p, rfl, rfl, h.symm⟩

/-- **One step keeps the state invariant.** -/
theorem StateInv.trans (h : StateInv C kp e) (ht : Trans C env e op out e')
    (ho : out ≠ .overflow) : StateInv C kp e' := by
  cases ht with
  | rejected => exact h
  | proposed ct data => exact h.setRound (roundOk_startRound C env e _ rfl)
  | accepted p hc =>
    have hh := ((checkProposal_ok_iff C env e p).mp hc).2.2.2.1
    have hok := roundOk_startRound C env e p hh
    exact h.setRound ⟨hok.view, hok.sequence, hok.proposal⟩
  | prePrepared v s hash =>
    cases hr : e.currentRound with
    | none =>
      refine ⟨h.keypair, ?_, h.pos, h.keys⟩
      intro r he
      cases he
    | some r =>
      have hok := h.round r hr
      exact h.setRound (r := { r with prePrepare := _ }) ⟨hok.view, hok.sequence, hok.proposal⟩
  | prepareCounted r p hr | prepareQuorum r p c hr | commitCounted r c hr =>
    have hok := h.round r hr
    exact h.setRound ⟨hok.view, hok.sequence, hok.proposal⟩
  | decided r c p hr hc hn hq hph hp hov => exact h.decided _ (h.round r hr).sequence hov
  | noProposal r c err hr hp => exact absurd hp (h.round r hr).proposal_ne_none
  | overflow => exact absurd rfl ho
  | viewChangeStarted | viewChangeCounted => exact ⟨h.keypair, h.round, h.pos, h.keys⟩
  | viewChangeIgnored => exact h
  | newViewFormed | newViewEntered => exact h.enterView _

/-- **One step never changes a decision**: the only key it writes is `next_sequence`, which has
none. -/
theorem StateInv.keeps_decision (h : StateInv C kp e) (ht : Trans C env e op out e')
    (ho : out ≠ .overflow) {d : ConsensusDecision}
    (hd : e.decisions.lookup s = some d) : e'.decisions.lookup s = some d := by
  cases ht with
  | decided r c p hr =>
    have hlt := ((h.keys s).mp (HashMap.mem_of_lookup hd)).2
    have hne : s ≠ (addCommit r c).sequence := by
      intro he
      rw [he] at hlt
      have hs : (addCommit r c).sequence = e.nextSequence := (h.round r hr).sequence
      rw [hs] at hlt
      exact lt_irrefl _ hlt
    show (AList.insert _ _ e.decisions).lookup s = some d
    rw [AList.lookup_insert_ne hne]
    exact hd
  | noProposal r c err hr hp => exact absurd hp (h.round r hr).proposal_ne_none
  | overflow => exact absurd rfl ho
  | rejected => exact hd
  | proposed => exact hd
  | accepted => exact hd
  | prePrepared => exact hd
  | prepareCounted => exact hd
  | prepareQuorum => exact hd
  | commitCounted => exact hd
  | viewChangeStarted => exact hd
  | viewChangeIgnored => exact hd
  | viewChangeCounted => exact hd
  | newViewFormed => exact hd
  | newViewEntered => exact hd

end

/-! ## runs -/

section
variable {C : Crypto} {kp : Keypair} {evs : List Event} {e : Engine}

theorem EngineStep.stateInv {e' : Engine} {ev : Event} (hs : EngineStep C e ev e')
    (h : StateInv C kp e) : StateInv C kp e' :=
  h.trans hs.trans hs.2.2.2

theorem EngineRun.stateInv (h : EngineRun C kp evs e) : StateInv C kp e :=
  Run.invariant (stateInv_new C kp) (fun _ _ _ hP hs => hs.stateInv hP) h

theorem EngineRun.keeps_decision (h : EngineRun C kp evs e) {ev : Event} (hev : ev ∈ evs)
    {d : ConsensusDecision} (hd : ev.before.decisions.lookup s = some d) :
    e.decisions.lookup s = some d := by
  obtain ⟨l₁, l₂, e₁, e₂, -, h1, hs, h2⟩ := Run.mem_split h hev
  -- along the rest of the run both the invariant and the decision are kept
  have hiv : StateInv C kp e₁ := EngineRun.stateInv h1
  have hd1 : e₁.decisions.lookup s = some d := by
    rw [← hs.1]
    exact hd
  have hbt : StateInv C kp e ∧ e.decisions.lookup s = some d :=
    Run.invariant (P := fun x => StateInv C kp x ∧ x.decisions.lookup s = some d)
      ⟨hs.stateInv hiv, hiv.keeps_decision hs.trans hs.2.2.2 hd1⟩
      (fun _ _ _ hP hst => ⟨hst.stateInv hP.1, hP.1.keeps_decision hst.trans hst.2.2.2 hP.2⟩) h2
  exact hbt.2

end

/-! ## where commits come from -/

/-- The commit `c` of the validator `k` votes for `(v, s, hash)`.  It is the engine's own, signed
and returned by one of the calls `evs`, or one of them got it and `verify_signature` accepted it. -/
structure CommitFrom (evs : List Event) (v : ViewNumber) (s : SequenceNumber) (hash : Bytes32)
    (k : Hotkey) (c : CommitMessage) : Prop where
  validator : c.validator = k
  view : c.view = v
  sequence : c.sequence = s
  proposalHash : c.proposalHash = hash
  source : (k = kp.hotkey ∧ ∃ ev ∈ evs, ev.out = .ok (.commit (some c)) ∧
      c.signature = kp.signBytes C ev.env.rng (voteBytes v s hash)) ∨
    ∃ ev ∈ evs, ev.op = .handleCommit c ∧
      ev.env.verifySignature C k (voteBytes v s hash) c.signature = .ok true

structure DecisionOk (evs : List Event) (s : SequenceNumber) (d : ConsensusDecision) : Prop where
  sequence : d.sequence = s
  distinct : (d.commitSignatures.map Prod.fst).Nodup
  quorum : ∃ ev ∈ evs, ev.out = .ok (.decision (some d)) ∧ s ∉ ev.before.decisions ∧
    ev.after.decisions.lookup s = some d ∧ ev.env.quorumSize ≤ d.commitSignatures.length
  certified : ∀ k σ, (k, σ) ∈ d.commitSignatures →
    ∃ c, c.signature = σ ∧ CommitFrom C kp evs d.view d.sequence d.content.dataHash k c

structure LogInv (evs : List Event) (e : Engine) : Prop where
  commits : ∀ r, e.currentRound = some r → ∀ k c, r.commits.lookup k = some c →
    CommitFrom C kp evs r.view r.sequence r.proposalHash k c
  decisions : ∀ s d, e.decisions.lookup s = some d → DecisionOk C kp evs s d

section
variable {C : Crypto} {kp : Keypair} {evs evs' : List Event} {e e' : Engine} {ev : Event}

variable {c : CommitMessage}

theorem CommitFrom.mono {v : ViewNumber} {hash : Bytes32} {k : Hotkey}
    (h : CommitFrom C kp evs v s hash k c) (hsb : evs ⊆ evs') :
    CommitFrom C kp evs' v s hash k c := by
  refine ⟨h.validator, h.view, h.sequence, h.proposalHash, ?_⟩
  rcases h.source with ⟨hk, ev, hev, he⟩ | ⟨ev, hev, he⟩
  · exact Or.inl ⟨hk, ev, hsb hev, he⟩
  · exact Or.inr ⟨ev, hsb hev, he⟩

theorem DecisionOk.mono {d : ConsensusDecision} (h : DecisionOk C kp evs s d)
    (hsb : evs ⊆ evs') : DecisionOk C kp evs' s d := by
  obtain ⟨ev, hev, hq⟩ := h.quorum
  refine ⟨h.sequence, h.distinct, ⟨ev, hsb hev, hq⟩, fun k σ hk => ?_⟩
  obtain ⟨c, hc, hfr⟩ := h.certified k σ hk
  exact ⟨c, hc, hfr.mono hsb⟩

theorem commitFrom_insert {k₀ : Hotkey} (h : ∀ k c, r.commits.lookup k = some c →
      CommitFrom C kp evs r.view r.sequence r.proposalHash k c) (hsb : evs ⊆ evs')
    (hc : CommitFrom C kp evs' r.view r.sequence r.proposalHash k₀ c) :
    ∀ k c', (r.commits.insert k₀ c).lookup k = some c' →
      CommitFrom C kp evs' r.view r.sequence r.proposalHash k c' := by
  intro k c' hl
  rcases (HashMap.lookup_insert_iff _ _ _ _ _).mp hl with ⟨rfl, rfl⟩ | ⟨_, hl⟩
  · exact hc
  · exact (h k c' hl).mono hsb

theorem commitFrom_of_checkCommit (hev : ev ∈ evs) (hop : ev.op = .handleCommit c)
    (hc : checkCommit C ev.env r c = .ok ()) :
    CommitFrom C kp evs r.view r.sequence r.proposalHash c.validator c := by
  obtain ⟨hv, hs, hh, hsg⟩ := (checkCommit_ok_iff C ev.env r c).mp hc
  rw [← hv, ← hs, ← hh]
  exact ⟨rfl, rfl, rfl, rfl, Or.inr ⟨ev, hev, hop, hsg⟩⟩

variable (h : LogInv C kp evs e)

section
include h

theorem LogInv.sameRound (hsb : evs ⊆ evs') (hr : e'.currentRound = e.currentRound)
    (hd : e'.decisions = e.decisions) :
    LogInv C kp evs' e' where
  commits := by
    intro r he k c hl
    rw [hr] at he
    exact (h.commits r he k c hl).mono hsb
  decisions := by
    intro s d hl
    rw [hd] at hl
    exact (h.decisions s d hl).mono hsb

theorem LogInv.sameCommits (hsb : evs ⊆ evs') {q : ConsensusRound} (hr : e.currentRound = some r)
    (hv : q.view = r.view) (hs : q.sequence = r.sequence) (hh : q.proposalHash = r.proposalHash)
    (hc : q.commits = r.commits) :
    LogInv C kp evs' { e with currentRound := some q } where
  commits := by
    intro r' he k c hl
    obtain rfl : q = r' := Option.some.inj he
    rw [hc] at hl
    rw [hv, hs, hh]
    exact (h.commits r hr k c hl).mono hsb
  decisions := fun s d hd => (h.decisions s d hd).mono hsb

theorem LogInv.freshRound (hsb : evs ⊆ evs')
    (hc : r.commits = ∅) : LogInv C kp evs' { e with currentRound := some r } where
  commits := by
    intro r' he k c hl
    obtain rfl : r = r' := Option.some.inj he
    rw [hc] at hl
    cases hl
  decisions := fun s d hd => (h.decisions s d hd).mono hsb

theorem LogInv.addedCommit (hsb : evs ⊆ evs') {r' : ConsensusRound} (hr : e.currentRound = some r)
    (hcr : CommitFrom C kp evs' r.view r.sequence r.proposalHash c.validator c)
    (hv : r'.view = r.view) (hs : r'.sequence = r.sequence) (hh : r'.proposalHash = r.proposalHash)
    (hc : r'.commits = r.commits.insert c.validator c) :
    LogInv C kp evs' { e with currentRound := some r' } where
  commits := by
    intro r'' he
    obtain rfl : r' = r'' := Option.some.inj he
    rw [hv, hs, hh, hc]
    exact commitFrom_insert (h.commits r hr) hsb hcr
  decisions := fun s d hd => (h.decisions s d hd).mono hsb

theorem LogInv.noRound (hsb : evs ⊆ evs') (hr : e'.currentRound = none)
    (hd : e'.decisions = e.decisions) : LogInv C kp evs' e' where
  commits := by
    intro r he
    rw [hr] at he
    cases he
  decisions := by
    intro s d hl
    rw [hd] at hl
    exact (h.decisions s d hl).mono hsb

end

theorem decisionOk_newDecision (hst : StateInv C kp e) {p : ConsensusProposal}
    (hr : e.currentRound = some r) (hp : r.proposal = some p)
    (hc : ∀ k c', (addCommit r c).commits.lookup k = some c' →
      CommitFrom C kp evs' r.view r.sequence r.proposalHash k c') (hev : ev ∈ evs')
    (ho : ev.out = .ok (.decision (some (newDecision (addCommit r c) p.proposal))))
    (hb : ev.before = e) (ha : ev.after = decidedEngine e (addCommit r c) p.proposal)
    (hq : ev.env.quorumSize ≤ (addCommit r c).commits.size) :
    DecisionOk C kp evs' r.sequence (newDecision (addCommit r c) p.proposal) where
  sequence := rfl
  distinct := by
    show (HashMap.pairs _ _ |>.map Prod.fst).Nodup
    rw [HashMap.pairs_fst]
    exact AList.keys_nodup _
  quorum := by
    refine ⟨ev, hev, ho, ?_, ?_, ?_⟩
    · rw [hb, hst.keys, (hst.round r hr).sequence]
      omega
    · rw [ha]
      exact AList.lookup_insert _
    · show _ ≤ (HashMap.pairs _ _).length
      rw [HashMap.length_pairs]
      exact hq
  certified := by
    intro k σ hk
    obtain ⟨c', hl, rfl⟩ := (HashMap.mem_pairs _ _ _ _).mp hk
    obtain ⟨p', hp', -, hdh⟩ := (hst.round r hr).proposal
    obtain rfl : p = p' := by
      rw [hp] at hp'
      exact Option.some.inj hp'
    refine ⟨c', rfl, ?_⟩
    show CommitFrom C kp evs' r.view r.sequence p.proposal.dataHash k c'
    rw [hdh]
    exact hc k c' hl

/-- **One call keeps the log invariant.** -/
theorem LogInv.step (h : LogInv C kp evs e) (hst : StateInv C kp e) (hs : EngineStep C e ev e') :
    LogInv C kp (evs ++ [ev]) e' := by
  have hsb : evs ⊆ evs ++ [ev] := List.subset_append_left _ _
  have hev : ev ∈ evs ++ [ev] := List.mem_append_right _ List.mem_cons_self
  have hkp := hst.keypair
  obtain ⟨env, pre, op, out, after⟩ := ev
  obtain ⟨hb, ha, hstep, hov⟩ := id hs
  have ht := hs.trans
  dsimp only at ht hb ha hov hstep
  cases ht with
  | rejected | viewChangeStarted | viewChangeIgnored | viewChangeCounted =>
    exact h.sameRound hsb rfl rfl
  | proposed | accepted => exact h.freshRound hsb rfl
  | prePrepared v s hash =>
    cases hr : e.currentRound with
    | none => exact h.noRound hsb rfl rfl
    | some r => exact h.sameCommits hsb (q := { r with prePrepare := _ }) hr rfl rfl rfl rfl
  | prepareCounted r p hr => exact h.sameCommits hsb hr rfl rfl rfl rfl
  | prepareQuorum r p c hr hc hn hq hp hcm =>
    refine h.addedCommit hsb hr ?_ rfl rfl rfl rfl
    -- the own commit
    subst hcm
    refine ⟨rfl, rfl, rfl, rfl, Or.inl ⟨congrArg Keypair.hotkey hkp, _, hev, rfl, ?_⟩⟩
    rw [← hkp]
    rfl
  | commitCounted r c hr hc =>
    exact h.addedCommit hsb hr (commitFrom_of_checkCommit hev rfl hc) rfl rfl rfl rfl
  | decided r c p hr hc hn hq hph hp =>
    have hcm : ∀ k c', (addCommit r c).commits.lookup k = some c' → _ :=
      commitFrom_insert (h.commits r hr) hsb (commitFrom_of_checkCommit hev rfl hc)
    constructor
    · intro r' he
      cases he
    intro s d hd
    rcases (HashMap.lookup_insert_iff _ _ _ _ _).mp hd with ⟨rfl, rfl⟩ | ⟨_, hd⟩
    · exact decisionOk_newDecision hst hr hp hcm hev rfl hb ha hq
    · exact (h.decisions s d hd).mono hsb
  | noProposal r c err hr hp => exact absurd hp (hst.round r hr).proposal_ne_none
  | overflow => exact absurd rfl hov
  | newViewFormed | newViewEntered => exact h.noRound hsb rfl rfl

theorem EngineRun.logInv (h : EngineRun C kp evs e) : LogInv C kp evs e := by
  refine Run.logInvariant ⟨?_, ?_⟩ ?_ h
  · intro r hr
    cases hr
  · intro s d hd
    cases hd
  · intro l s a s' hr hP hs
    exact hP.step (EngineRun.stateInv hr) hs

end

/-- **The run invariant of the engine.**  For every sequence of calls from `Engine.new`: the active
round belongs to the current view and the next sequence and carries the hash of its proposal; the
decided sequences are exactly `1, .., next_sequence - 1`; no recorded decision is ever changed;
every decision lists commit signatures of a quorum of distinct validators, own or verified. -/
theorem engine_run_invariant (C : Crypto) (kp : Keypair) (evs : List Event) (e : Engine)
    (h : EngineRun C kp evs e) :
    (∀ r, e.currentRound = some r → r.sequence = e.nextSequence ∧ r.view = e.currentView ∧
      ∃ p, r.proposal = some p ∧ r.proposalHash = C.sha256 p.proposal.data) ∧
    (∀ s, s ∈ e.decisions ↔ 1 ≤ s.toNat ∧ s.toNat ≤ e.nextSequence.toNat - 1) ∧
    (∀ ev ∈ evs, ∀ s d, ev.before.decisions.lookup s = some d → e.decisions.lookup s = some d) ∧
    (∀ s d, e.decisions.lookup s = some d → DecisionOk C kp evs s d) := by
  have hst := h.stateInv
  refine ⟨?_, ?_, ?_, h.logInv.decisions⟩
  · intro r hr
    obtain ⟨hv, hs, p, hp, hh, -⟩ := hst.round r hr
    exact ⟨hs, hv, p, hp, hh⟩
  · intro s
    have hps := hst.pos
    rw [hst.keys]
    omega
  · intro ev hev s d hd
    exact h.keeps_decision hev hd

/-- Validator `1` of the network of four decides sequence `1`. -/
theorem engine_run_invariant_sample :
    let run := calls sampleCrypto (sampleKey 1) (sampleRound [7])
    EngineRun sampleCrypto (sampleKey 1) run.1 run.2 ∧ run.2.nextSequence = 2 ∧
      1 ∈ run.2.decisions ∧
      ∀ s d, run.2.decisions.lookup s = some d →
        DecisionOk sampleCrypto (sampleKey 1) run.1 s d := by
  have hrun := engineRun_calls sampleCrypto (sampleKey 1) (sampleRound [7]) (by decide +kernel)
  have h := engine_run_invariant sampleCrypto (sampleKey 1) _ _ hrun
  exact ⟨hrun, by decide +kernel, by decide +kernel, h.2.2.2⟩

end Platform.Consensus
