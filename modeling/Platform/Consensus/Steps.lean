import Platform.Consensus.Engine
import Platform.Lib.Runs

/-!
# What a step of the engine can do

`Trans C env e op out e'` lists the transitions of the engine, each with the guards under which it
is taken, and `step_trans` shows that `step` does nothing else.  Every invariant is proved by cases
on `Trans`; the handlers are not unfolded again.

`EngineRun C kp evs e`: the operations recorded in `evs` lead from `Engine.new kp` to `e`.
-/

namespace Platform.Consensus
open Lib Platform.Core

/-! ## the checks -/

theorem checkSigned_ok_iff (C : Crypto) (env : Env) (k : Hotkey) (m sig : Bytes) (bad : String) :
    checkSigned C env k m sig bad = .ok () ↔ env.verifySignature C k m sig = .ok true := by
  unfold checkSigned
  cases env.verifySignature C k m sig with
  | error err => simp
  | ok b => cases b <;> simp

variable (C : Crypto) (env : Env) (r : ConsensusRound)

section
include C env r

theorem checkVote_ok_iff (v : ViewNumber) (s : SequenceNumber) (h : Bytes32) (k : Hotkey)
    (m sig : Bytes) :
    checkVote C env r v s h k m sig = .ok () ↔
      v = r.view ∧ s = r.sequence ∧ h = r.proposalHash ∧
        env.verifySignature C k m sig = .ok true := by
  unfold checkVote
  by_cases hv : v = r.view
  · by_cases hs : s = r.sequence
    · by_cases hh : h = r.proposalHash
      · simp [hv, hs, hh, checkSigned_ok_iff]
      · simp [hv, hs, hh]
    · simp [hv, hs]
  · simp [hv]

theorem checkPrepare_ok_iff (p : PrepareMessage) :
    checkPrepare C env r p = .ok () ↔
      p.view = r.view ∧ p.sequence = r.sequence ∧ p.proposalHash = r.proposalHash ∧
        env.verifySignature C p.validator p.signingBytes p.signature = .ok true :=
  checkVote_ok_iff C env r _ _ _ _ _ _

theorem checkCommit_ok_iff (c : CommitMessage) :
    checkCommit C env r c = .ok () ↔
      c.view = r.view ∧ c.sequence = r.sequence ∧ c.proposalHash = r.proposalHash ∧
        env.verifySignature C c.validator c.signingBytes c.signature = .ok true :=
  checkVote_ok_iff C env r _ _ _ _ _ _

end

theorem checkProposal_ok_iff (C : Crypto) (env : Env) (e : Engine) (p : ConsensusProposal) :
    checkProposal C env e p = .ok () ↔
      p.view = e.currentView ∧ p.sequence = e.nextSequence ∧
        env.leaderForView e.currentView = some p.proposer ∧
        C.sha256 p.proposal.data = p.proposal.dataHash ∧
        (SignedMessage.mk p.signingBytes p.signature p.proposer).verify C = .ok true ∧
        (p.proposal.changeType = .configUpdate → env.sudoKey = p.proposer) := by
  unfold checkProposal
  by_cases hv : p.view = e.currentView
  · by_cases hs : p.sequence = e.nextSequence
    · by_cases hl : env.leaderForView e.currentView = some p.proposer
      · by_cases hh : C.sha256 p.proposal.data = p.proposal.dataHash
        · cases hm : (SignedMessage.mk p.signingBytes p.signature p.proposer).verify C with
          | error err => simp [hv, hs, hl, hh]
          | ok b => cases b <;> simp [hv, hs, hl, hh, imp_iff_not_or]
        · simp [hv, hs, hl, hh]
      · simp [hv, hs, hl]
    · simp [hv, hs]
  · simp [hv]

/-! ## the transitions -/

/-- the round after `handle_proposal`: fresh, with the own prepare in it -/
def votedRound (C : Crypto) (env : Env) (e : Engine) (p : ConsensusProposal) : ConsensusRound :=
  { startRound env e p (C.sha256 p.proposal.data) with
    localPrepared := true
    prepares := AList.insert e.keypair.hotkey
      (newPrepare C env e e.currentView e.nextSequence (C.sha256 p.proposal.data)) ∅ }

def decidedEngine (e : Engine) (r : ConsensusRound) (content : ProposalContent) : Engine :=
  { e with
    decisions := e.decisions.insert r.sequence (newDecision r content)
    nextSequence := e.nextSequence + 1
    currentRound := none }

inductive Trans (C : Crypto) (env : Env) (e : Engine) : Op → Outcome Output → Engine → Prop
  | rejected (op : Op) (err : ConsensusError) : Trans C env e op (.err err) e
  | proposed (ct : StateChangeType) (data : Bytes) (hl : env.amILeader e.currentView = true)
      (hs : ct = .configUpdate → env.sudoKey = e.keypair.hotkey) :
      Trans C env e (.createProposal ct data) (.ok (.proposal (newProposal C env e ct data)))
        { e with currentRound := some (startRound env e (newProposal C env e ct data)
            (C.sha256 data)) }
  | accepted (p : ConsensusProposal) (hc : checkProposal C env e p = .ok ()) :
      Trans C env e (.handleProposal p)
        (.ok (.prepare (newPrepare C env e e.currentView e.nextSequence
          (C.sha256 p.proposal.data))))
        { e with currentRound := some (votedRound C env e p) }
  | prePrepared (v : ViewNumber) (s : SequenceNumber) (h : Bytes32)
      (hl : env.amILeader v = true) :
      Trans C env e (.createPrePrepare v s h) (.ok (.prePrepare (newPrePrepare C env e v s h)))
        { e with currentRound := e.currentRound.map fun r =>
            { r with prePrepare := some (newPrePrepare C env e v s h) } }
  | prepareCounted (r : ConsensusRound) (p : PrepareMessage) (hr : e.currentRound = some r)
      (hc : checkPrepare C env r p = .ok ()) (hn : p.validator ∉ r.prepares)
      (hq : ¬ (env.quorumSize ≤ (addPrepare r p).prepares.size ∧ r.phase = .prePrepare)) :
      Trans C env e (.handlePrepare p) (.ok (.commit none))
        { e with currentRound := some (addPrepare r p) }
  | prepareQuorum (r : ConsensusRound) (p : PrepareMessage) (c : CommitMessage)
      (hr : e.currentRound = some r)
      (hc : checkPrepare C env r p = .ok ()) (hn : p.validator ∉ r.prepares)
      (hq : env.quorumSize ≤ (addPrepare r p).prepares.size) (hp : r.phase = .prePrepare)
      (hcom : c = createCommitInternal C env e r.view r.sequence r.proposalHash) :
      Trans C env e (.handlePrepare p) (.ok (.commit (some c)))
        { e with currentRound := some (addOwnCommit (addPrepare r p) c) }
  | commitCounted (r : ConsensusRound) (c : CommitMessage) (hr : e.currentRound = some r)
      (hc : checkCommit C env r c = .ok ()) (hn : c.validator ∉ r.commits)
      (hq : ¬ (env.quorumSize ≤ (addCommit r c).commits.size ∧ r.phase = .prepared)) :
      Trans C env e (.handleCommit c) (.ok (.decision none))
        { e with currentRound := some (addCommit r c) }
  | decided (r : ConsensusRound) (c : CommitMessage) (p : ConsensusProposal)
      (hr : e.currentRound = some r)
      (hc : checkCommit C env r c = .ok ()) (hn : c.validator ∉ r.commits)
      (hq : env.quorumSize ≤ (addCommit r c).commits.size) (hph : r.phase = .prepared)
      (hp : r.proposal = some p) (ho : e.nextSequence ≠ UInt64.ofNat (2 ^ 64 - 1)) :
      Trans C env e (.handleCommit c)
        (.ok (.decision (some (newDecision (addCommit r c) p.proposal))))
        (decidedEngine e (addCommit r c) p.proposal)
  | noProposal (r : ConsensusRound) (c : CommitMessage) (err : ConsensusError)
      (hr : e.currentRound = some r) (hp : r.proposal = none) :
      Trans C env e (.handleCommit c) (.err err)
        { e with currentRound := some (setCommitted (addCommit r c)) }
  | overflow (r : ConsensusRound) (c : CommitMessage) (p : ConsensusProposal)
      (hr : e.currentRound = some r) (hp : r.proposal = some p) :
      Trans C env e (.handleCommit c) .overflow
        { e with
          currentRound := some (setCommitted (addCommit r c))
          decisions := e.decisions.insert r.sequence (newDecision (addCommit r c) p.proposal) }
  | viewChangeStarted (v : ViewNumber) (hv : e.currentView < v) :
      Trans C env e (.initiateViewChange v) (.ok (.viewChange (newViewChange C env e v)))
        { e with viewChangeState := some (ownState env e (newViewChange C env e v)) }
  | viewChangeIgnored (vc : ViewChangeMessage) (hc : checkViewChange C env vc = .ok ())
      (hs : staleViewChange e vc = true) :
      Trans C env e (.handleViewChange vc) (.ok (.newView none)) e
  | viewChangeCounted (vc : ViewChangeMessage) (hc : checkViewChange C env vc = .ok ())
      (hs : staleViewChange e vc = false) :
      Trans C env e (.handleViewChange vc) (.ok (.newView none))
        { e with viewChangeState := some (addViewChange (stateFor env e vc) vc) }
  | newViewFormed (vc : ViewChangeMessage) (state : ViewChangeState)
      (hc : checkViewChange C env vc = .ok ())
      (hs : staleViewChange e vc = false) (hst : state = addViewChange (stateFor env e vc) vc)
      (hq : env.quorumSize ≤ state.viewChanges.size)
      (hl : env.isLeader e.keypair.hotkey state.newView = true) :
      Trans C env e (.handleViewChange vc) (.ok (.newView (some (newNewView C env e state))))
        (enterView e state.newView)
  | newViewEntered (m : NewViewMessage) (hc : checkNewView C env m = .ok ()) :
      Trans C env e (.handleNewView m) (.ok .entered) (enterView e m.view)

section
variable (C : Crypto) (env : Env) (e : Engine)

theorem handlePrepare_trans (p : PrepareMessage) :
    Trans C env e (.handlePrepare p) (step C env e (.handlePrepare p)).1
      (step C env e (.handlePrepare p)).2 := by
  simp only [step, handlePrepare]
  cases hr : e.currentRound with
  | none => exact .rejected _ _
  | some r =>
    dsimp only
    cases hc : checkPrepare C env r p with
    | error err => exact .rejected _ _
    | ok u =>
      dsimp only
      split
      · exact .rejected _ _
      · rename_i hn
        split
        · rename_i hq
          exact .prepareQuorum r p _ hr hc hn hq.1 hq.2 rfl
        · rename_i hq
          exact .prepareCounted r p hr hc hn hq

theorem handleCommit_trans (c : CommitMessage) :
    Trans C env e (.handleCommit c) (step C env e (.handleCommit c)).1
      (step C env e (.handleCommit c)).2 := by
  simp only [step, handleCommit]
  cases hr : e.currentRound with
  | none => exact .rejected _ _
  | some r =>
    dsimp only
    cases hc : checkCommit C env r c with
    | error err => exact .rejected _ _
    | ok u =>
      dsimp only
      split
      · exact .rejected _ _
      · rename_i hn
        split
        · rename_i hq
          unfold decideRound
          cases hp : r.proposal with
          | none =>
            have hp' : (addCommit r c).proposal = none := hp
            rw [hp']
            exact .noProposal r c _ hr hp
          | some p =>
            have hp' : (addCommit r c).proposal = some p := hp
            rw [hp']
            dsimp only
            split
            · exact .overflow r c p hr hp
            · rename_i ho
              exact .decided r c p hr hc hn hq.1 hq.2 hp ho
        · rename_i hq
          exact .commitCounted r c hr hc hn hq

theorem handleViewChange_trans (vc : ViewChangeMessage) :
    Trans C env e (.handleViewChange vc) (step C env e (.handleViewChange vc)).1
      (step C env e (.handleViewChange vc)).2 := by
  simp only [step, handleViewChange]
  cases hc : checkViewChange C env vc with
  | error err => exact .rejected _ _
  | ok u =>
    cases hs : staleViewChange e vc with
    | true => exact .viewChangeIgnored vc hc hs
    | false =>
      simp only [Bool.false_eq_true, if_false]
      split
      · rename_i hq
        exact .newViewFormed vc _ hc hs rfl hq.1 hq.2
      · exact .viewChangeCounted vc hc hs

/-- **Every step is one of the transitions.** -/
theorem step_trans (op : Op) : Trans C env e op (step C env e op).1 (step C env e op).2 := by
  cases op with
  | createProposal ct data =>
    simp only [step, createProposal]
    split
    · exact .rejected _ _
    · rename_i hl
      split
      · exact .rejected _ _
      · rename_i hs
        refine .proposed ct data (by simpa using hl) (fun hct => ?_)
        by_contra hne
        exact hs ⟨hct, hne⟩
  | handleProposal p =>
    simp only [step, handleProposal]
    cases hc : checkProposal C env e p with
    | error err => exact .rejected _ _
    | ok u => exact .accepted p hc
  | createPrePrepare v s h =>
    simp only [step, createPrePrepare]
    split
    · exact .rejected _ _
    · rename_i hl
      exact .prePrepared v s h (by simpa using hl)
  | handlePrepare p => exact handlePrepare_trans C env e p
  | handleCommit c => exact handleCommit_trans C env e c
  | initiateViewChange v =>
    simp only [step, initiateViewChange]
    split
    · exact .rejected _ _
    · rename_i hv
      exact .viewChangeStarted v (UInt64.not_le.mp hv)
  | handleViewChange vc => exact handleViewChange_trans C env e vc
  | handleNewView m =>
    simp only [step, handleNewView]
    cases hc : checkNewView C env m with
    | error err => exact .rejected _ _
    | ok u => exact .newViewEntered m hc

end

/-! ## runs of one engine -/

/-- One call: what it read, the engine before and after it, and its result. -/
structure Event where
  env : Env
  before : Engine
  op : Op
  out : Outcome Output
  after : Engine

/-- The calls that return, as a transition relation. -/
def EngineStep (C : Crypto) (e : Engine) (ev : Event) (e' : Engine) : Prop :=
  ev.before = e ∧ ev.after = e' ∧ step C ev.env e ev.op = (ev.out, e') ∧ ev.out ≠ .overflow

def EngineRun (C : Crypto) (kp : Keypair) (evs : List Event) (e : Engine) : Prop :=
  Run (EngineStep C) (Engine.new kp) evs e

theorem EngineStep.trans {C : Crypto} {e e' : Engine} {ev : Event} (h : EngineStep C e ev e') :
    Trans C ev.env e ev.op ev.out e' := by
  have ht := step_trans C ev.env e ev.op
  rw [h.2.2.1] at ht
  exact ht

def call (C : Crypto) (e : Engine) (a : Env × Op) : Event × Engine :=
  (⟨a.1, e, a.2, (step C a.1 e a.2).1, (step C a.1 e a.2).2⟩, (step C a.1 e a.2).2)

def calls (C : Crypto) (kp : Keypair) (as : List (Env × Op)) : List Event × Engine :=
  exec (call C) (Engine.new kp) as

def Returning (C : Crypto) (kp : Keypair) (as : List (Env × Op)) : Prop :=
  Admits (call C) (fun e a => (step C a.1 e a.2).1 ≠ .overflow) (Engine.new kp) as

instance (C : Crypto) (kp : Keypair) (as : List (Env × Op)) : Decidable (Returning C kp as) :=
  decidableAdmits _ _ _ _

theorem engineRun_calls (C : Crypto) (kp : Keypair) (as : List (Env × Op))
    (h : Returning C kp as) : EngineRun C kp (calls C kp as).1 (calls C kp as).2 :=
  Run.of_exec (call C) _ (fun _ _ ha => ⟨rfl, rfl, rfl, ha⟩) as (Engine.new kp) h

/-! ## a network of four

Validators `0, .., 3` with equal stakes, so validator `i` leads the views `i, i + 4, ..`; all of
them are fresh at time `0` and validator `0` holds the sudo key. -/

variable (i : UInt8) (data : Bytes)

def sampleKey : Keypair := ⟨.ofByte i⟩

def sampleEnv (me : UInt8) (rng : Nat) : Env := ⟨ValidatorSet.sample me 4, .ofByte 0, 0, rng⟩

/-- validator `i` asks for view `v` -/
def sampleViewChange (v : ViewNumber) : ViewChangeMessage :=
  newViewChange sampleCrypto (sampleEnv i 3) (Engine.new (sampleKey i)) v

def sampleNewView (leader : UInt8) (v : ViewNumber) (signers : List UInt8) : NewViewMessage where
  view := v
  viewChanges := signers.map fun i => sampleViewChange i v
  leader := .ofByte leader
  signature := (sampleKey leader).signBytes sampleCrypto 4 (newViewBytes v)

def sampleHash : Bytes32 := sampleCrypto.sha256 data

/-- what the leader of view `0` proposes first -/
def sampleProposal (ct : StateChangeType) (data : Bytes) : ConsensusProposal :=
  newProposal sampleCrypto (sampleEnv 0 0) (Engine.new (sampleKey 0)) ct data

def samplePrepare : PrepareMessage :=
  newPrepare sampleCrypto (sampleEnv i 1) (Engine.new (sampleKey i)) 0 1 (sampleHash data)

def sampleCommit : CommitMessage :=
  createCommitInternal sampleCrypto (sampleEnv i 2) (Engine.new (sampleKey i)) 0 1 (sampleHash data)

/-- validator `1` takes part in the decision on `data` -/
def sampleRound : List (Env × Op) :=
  [(sampleEnv 1 1, .handleProposal (sampleProposal .weightUpdate data)),
    (sampleEnv 1 1, .handlePrepare (samplePrepare 0 data)),
    (sampleEnv 1 2, .handlePrepare (samplePrepare 2 data)),
    (sampleEnv 1 2, .handleCommit (sampleCommit 0 data)),
    (sampleEnv 1 2, .handleCommit (sampleCommit 2 data))]

end Platform.Consensus
