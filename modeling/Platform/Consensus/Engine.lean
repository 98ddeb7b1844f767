import Platform.Consensus.Validator

/-!
# The consensus engine (`crates/p2p-consensus/src/consensus.rs`)

`Engine` holds the fields that a `ConsensusEngine` owns.  What it shares with the rest of the node
(validator set, sudo key, clock, randomness of the signer) may be different at every call and is
the argument `Env`.

An operation returns its result and the engine after it, also when it fails: the source keeps
whatever was written before an early return.  `bincode::serialize` of the signing structs and
`sign_bytes` never fail, so their error branches are not modelled.  `Outcome.overflow` stands for
a call that does not return: `next_sequence += 1` at `u64::MAX` panics in a checked build, and in
any build the map of decisions would have to hold `2^64 - 1` entries by then, which it cannot
allocate.
-/

namespace Platform.Consensus
open Lib Platform.Core

inductive ConsensusError where
  | notLeader (view : ViewNumber)
  | invalidProposal (msg : String)
  | invalidSignature (msg : String)
  | sequenceMismatch (expected actual : UInt64)
  | viewMismatch (expected actual : UInt64)
  | notEnoughVotes (needed got : Nat)
  | alreadyVoted
deriving DecidableEq

inductive ConsensusPhase where
  | idle
  | prePrepare
  | prepared
  | committed
  | viewChange
deriving DecidableEq

/-- the derived order of the source: declaration order -/
def ConsensusPhase.rank : ConsensusPhase → Nat
  | .idle => 0
  | .prePrepare => 1
  | .prepared => 2
  | .committed => 3
  | .viewChange => 4

structure ConsensusRound where
  view : ViewNumber
  sequence : SequenceNumber
  phase : ConsensusPhase
  proposal : Option ConsensusProposal
  prePrepare : Option PrePrepare
  prepares : HashMap Hotkey PrepareMessage
  commits : HashMap Hotkey CommitMessage
  proposalHash : Bytes32
  localPrepared : Bool
  localCommitted : Bool
  startedAt : Int

def ConsensusRound.new (now : Int) (view : ViewNumber) (sequence : SequenceNumber) :
    ConsensusRound where
  view := view
  sequence := sequence
  phase := .idle
  proposal := none
  prePrepare := none
  prepares := ∅
  commits := ∅
  proposalHash := zeroHash
  localPrepared := false
  localCommitted := false
  startedAt := now

structure ViewChangeState where
  newView : ViewNumber
  viewChanges : HashMap Hotkey ViewChangeMessage
  startedAt : Int

structure ConsensusDecision where
  view : ViewNumber
  sequence : SequenceNumber
  content : ProposalContent
  commitSignatures : List (Hotkey × Bytes)
deriving DecidableEq

structure Engine where
  keypair : Keypair
  currentView : ViewNumber
  nextSequence : SequenceNumber
  currentRound : Option ConsensusRound
  viewChangeState : Option ViewChangeState
  decisions : HashMap SequenceNumber ConsensusDecision

def Engine.new (keypair : Keypair) : Engine where
  keypair := keypair
  currentView := 0
  nextSequence := 1
  currentRound := none
  viewChangeState := none
  decisions := ∅

/-- what a call reads from the rest of the node -/
structure Env where
  validatorSet : ValidatorSet
  sudoKey : Hotkey
  now : Int
  rng : Nat

namespace Env

def quorumSize (env : Env) : Nat := env.validatorSet.quorumSize env.now
def leaderForView (env : Env) (view : ViewNumber) : Option Hotkey :=
  env.validatorSet.leaderForView env.now view
def isLeader (env : Env) (hotkey : Hotkey) (view : ViewNumber) : Bool :=
  env.validatorSet.isLeader env.now hotkey view
def amILeader (env : Env) (view : ViewNumber) : Bool := env.validatorSet.amILeader env.now view
def verifySignature (C : Crypto) (env : Env) (hotkey : Hotkey) (message signature : Bytes) :
    Except ValidatorError Bool := env.validatorSet.verifySignature C hotkey message signature

end Env

/-- The result of a call; `overflow` is a call that does not return. -/
inductive Outcome (α : Type) where
  | ok (a : α)
  | err (e : ConsensusError)
  | overflow
deriving DecidableEq

def Outcome.map {α β : Type} (f : α → β) : Outcome α → Outcome β
  | .ok a => .ok (f a)
  | .err e => .err e
  | .overflow => .overflow

/-! ## proposals -/

variable (C : Crypto) (env : Env) (e : Engine) (r : ConsensusRound) (view : ViewNumber)
  (sequence : SequenceNumber)

def startRound (p : ConsensusProposal) (hash : Bytes32) : ConsensusRound :=
  { ConsensusRound.new env.now e.currentView e.nextSequence with
    proposal := some p
    proposalHash := hash
    phase := .prePrepare }

def newProposal (changeType : StateChangeType) (data : Bytes) : ConsensusProposal where
  view := e.currentView
  sequence := e.nextSequence
  proposal := ⟨changeType, data, C.sha256 data⟩
  proposer := e.keypair.hotkey
  signature :=
    e.keypair.signBytes C env.rng (voteBytes e.currentView e.nextSequence (C.sha256 data))
  timestamp := env.now

def createProposal (changeType : StateChangeType) (data : Bytes) :
    Outcome ConsensusProposal × Engine :=
  if env.amILeader e.currentView = false then (.err (.notLeader e.currentView), e)
  else if changeType = .configUpdate ∧ env.sudoKey ≠ e.keypair.hotkey then
    (.err (.invalidProposal "ConfigUpdate requires sudo authorization"), e)
  else
    let proposal := newProposal C env e changeType data
    (.ok proposal, { e with currentRound := some (startRound env e proposal (C.sha256 data)) })

/-- The checks of `handle_proposal`, in their order. -/
def checkProposal (p : ConsensusProposal) : Except ConsensusError Unit :=
  if p.view ≠ e.currentView then .error (.viewMismatch e.currentView p.view)
  else if p.sequence ≠ e.nextSequence then .error (.sequenceMismatch e.nextSequence p.sequence)
  else if env.leaderForView e.currentView ≠ some p.proposer then
    .error (.invalidProposal ("Proposer " ++ p.proposer.debug ++ " is not the leader"))
  else if C.sha256 p.proposal.data ≠ p.proposal.dataHash then
    .error (.invalidProposal "Data hash mismatch")
  else
    match (SignedMessage.mk p.signingBytes p.signature p.proposer).verify C with
    | .error err => .error (.invalidSignature err.display)
    | .ok false => .error (.invalidSignature p.proposer.toHex)
    | .ok true =>
      if p.proposal.changeType = .configUpdate ∧ env.sudoKey ≠ p.proposer then
        .error (.invalidProposal "ConfigUpdate requires sudo authorization")
      else .ok ()

def newPrepare (hash : Bytes32) : PrepareMessage where
  view := view
  sequence := sequence
  proposalHash := hash
  validator := e.keypair.hotkey
  signature := e.keypair.signBytes C env.rng (voteBytes view sequence hash)

def createPrepare (hash : Bytes32) : PrepareMessage × Engine :=
  let prepare := newPrepare C env e view sequence hash
  (prepare, { e with
    currentRound := e.currentRound.map fun r =>
      { r with
        localPrepared := true
        prepares := r.prepares.insert e.keypair.hotkey prepare } })

def handleProposal (p : ConsensusProposal) : Outcome PrepareMessage × Engine :=
  match checkProposal C env e p with
  | .error err => (.err err, e)
  | .ok () =>
    let hash := C.sha256 p.proposal.data
    let e' := { e with currentRound := some (startRound env e p hash) }
    let r := createPrepare C env e' e.currentView e.nextSequence hash
    (.ok r.1, r.2)

def newPrePrepare (hash : Bytes32) : PrePrepare where
  view := view
  sequence := sequence
  proposalHash := hash
  leader := e.keypair.hotkey
  signature := e.keypair.signBytes C env.rng (voteBytes view sequence hash)

def createPrePrepare (hash : Bytes32) : Outcome PrePrepare × Engine :=
  if env.amILeader view = false then (.err (.notLeader view), e)
  else
    let pp := newPrePrepare C env e view sequence hash
    (.ok pp,
      { e with currentRound := e.currentRound.map fun r => { r with prePrepare := some pp } })

/-! ## votes -/

def checkSigned (k : Hotkey) (message signature : Bytes) (bad : String) :
    Except ConsensusError Unit :=
  match env.verifySignature C k message signature with
  | .error err => .error (.invalidSignature err.display)
  | .ok false => .error (.invalidSignature bad)
  | .ok true => .ok ()

/-- The checks that `handle_prepare` and `handle_commit` make before they count a vote. -/
def checkVote (hash : Bytes32) (validator : Hotkey) (message signature : Bytes) :
    Except ConsensusError Unit :=
  if view ≠ r.view then .error (.viewMismatch r.view view)
  else if sequence ≠ r.sequence then .error (.sequenceMismatch r.sequence sequence)
  else if hash ≠ r.proposalHash then .error (.invalidProposal "Proposal hash mismatch")
  else checkSigned C env validator message signature validator.toHex

def createCommitInternal (hash : Bytes32) : CommitMessage where
  view := view
  sequence := sequence
  proposalHash := hash
  validator := e.keypair.hotkey
  signature := e.keypair.signBytes C env.rng (voteBytes view sequence hash)

def checkPrepare (p : PrepareMessage) : Except ConsensusError Unit :=
  checkVote C env r p.view p.sequence p.proposalHash p.validator p.signingBytes p.signature

def checkCommit (c : CommitMessage) : Except ConsensusError Unit :=
  checkVote C env r c.view c.sequence c.proposalHash c.validator c.signingBytes c.signature

def addPrepare (p : PrepareMessage) : ConsensusRound :=
  { r with prepares := r.prepares.insert p.validator p }

def addOwnCommit (commit : CommitMessage) : ConsensusRound :=
  { r with
    phase := .prepared
    localCommitted := true
    commits := r.commits.insert commit.validator commit }

def handlePrepare (p : PrepareMessage) : Outcome (Option CommitMessage) × Engine :=
  match e.currentRound with
  | none => (.err (.invalidProposal "No active round"), e)
  | some r =>
    match checkPrepare C env r p with
    | .error err => (.err err, e)
    | .ok () =>
      if p.validator ∈ r.prepares then (.err .alreadyVoted, e)
      else
        let r := addPrepare r p
        -- the quorum is only looked at while the round is still in pre-prepare
        if env.quorumSize ≤ r.prepares.size ∧ r.phase = .prePrepare then
          let commit := createCommitInternal C env e r.view r.sequence r.proposalHash
          (.ok (some commit), { e with currentRound := some (addOwnCommit r commit) })
        else (.ok none, { e with currentRound := some r })

def addCommit (c : CommitMessage) : ConsensusRound :=
  { r with commits := r.commits.insert c.validator c }

def newDecision (content : ProposalContent) : ConsensusDecision where
  view := r.view
  sequence := r.sequence
  content := content
  commitSignatures := r.commits.pairs CommitMessage.signature

def setCommitted : ConsensusRound := { r with phase := .committed }

/-- the part of `handle_commit` behind the quorum test -/
def decideRound : Outcome (Option ConsensusDecision) × Engine :=
  match r.proposal with
  | none =>
    (.err (.invalidProposal "No proposal in committed round"),
      { e with currentRound := some (setCommitted r) })
  | some p =>
    let decision := newDecision r p.proposal
    let decisions := e.decisions.insert r.sequence decision
    if e.nextSequence = UInt64.ofNat (2 ^ 64 - 1) then
      (.overflow, { e with currentRound := some (setCommitted r), decisions := decisions })
    else
      (.ok (some decision),
        { e with
          decisions := decisions
          nextSequence := e.nextSequence + 1
          currentRound := none })

def handleCommit (c : CommitMessage) : Outcome (Option ConsensusDecision) × Engine :=
  match e.currentRound with
  | none => (.err (.invalidProposal "No active round"), e)
  | some r =>
    match checkCommit C env r c with
    | .error err => (.err err, e)
    | .ok () =>
      if c.validator ∈ r.commits then (.err .alreadyVoted, e)
      else
        let r := addCommit r c
        if env.quorumSize ≤ r.commits.size ∧ r.phase = .prepared then decideRound e r
        else (.ok none, { e with currentRound := some r })

/-! ## view changes -/

/-- the prepared certificate that a view change carries -/
def lastPrepared : Option SequenceNumber × Option PreparedProof :=
  match e.currentRound with
  | none => (none, none)
  | some r =>
    match r.prePrepare with
    | none => (none, none)
    | some pp =>
      if ConsensusPhase.prepared.rank ≤ r.phase.rank then
        (some r.sequence, some ⟨pp, r.prepares.values⟩)
      else (none, none)

def newViewChange (newView : ViewNumber) : ViewChangeMessage where
  newView := newView
  lastPreparedSequence := (lastPrepared e).1
  preparedProof := (lastPrepared e).2
  validator := e.keypair.hotkey
  signature := e.keypair.signBytes C env.rng (viewChangeBytes newView (lastPrepared e).1)

def ownState (vc : ViewChangeMessage) : ViewChangeState where
  newView := vc.newView
  viewChanges := AList.insert e.keypair.hotkey vc ∅
  startedAt := env.now

def initiateViewChange (newView : ViewNumber) : Outcome ViewChangeMessage × Engine :=
  if newView ≤ e.currentView then (.err (.viewMismatch (e.currentView + 1) newView), e)
  else
    let vc := newViewChange C env e newView
    (.ok vc, { e with viewChangeState := some (ownState env e vc) })

/-- The loop over the prepares of a proof: an error of `verify_signature` ends it, a signature that
does not verify is skipped. -/
def countValidPrepares (C : Crypto) (env : Env) : List PrepareMessage → Nat →
    Except ConsensusError Nat
  | [], n => .ok n
  | p :: ps, n =>
    match env.verifySignature C p.validator p.signingBytes p.signature with
    | .error err => .error (.invalidSignature err.display)
    | .ok valid => countValidPrepares C env ps (if valid then n + 1 else n)

/-- The checks of a prepared proof in `handle_view_change`. -/
def checkPreparedProof (proof : PreparedProof) : Except ConsensusError Unit :=
  match checkSigned C env proof.prePrepare.leader proof.prePrepare.signingBytes
      proof.prePrepare.signature
      ("Invalid PrePrepare signature from " ++ proof.prePrepare.leader.toHex) with
  | .error err => .error err
  | .ok () =>
    match countValidPrepares C env proof.prepares 0 with
    | .error err => .error err
    | .ok count =>
      if count < env.quorumSize then .error (.notEnoughVotes env.quorumSize count) else .ok ()

def checkViewChange (vc : ViewChangeMessage) : Except ConsensusError Unit :=
  match checkSigned C env vc.validator vc.signingBytes vc.signature vc.validator.toHex with
  | .error err => .error err
  | .ok () =>
    match vc.preparedProof with
    | none => .ok ()
    | some proof => checkPreparedProof C env proof

def newNewView (state : ViewChangeState) : NewViewMessage where
  view := state.newView
  viewChanges := state.viewChanges.values
  leader := e.keypair.hotkey
  signature := e.keypair.signBytes C env.rng (newViewBytes state.newView)

def enterView : Engine :=
  { e with currentView := view, viewChangeState := none, currentRound := none }

def stateFor (vc : ViewChangeMessage) : ViewChangeState :=
  match e.viewChangeState with
  | none => ⟨vc.newView, ∅, env.now⟩
  | some state => if vc.newView = state.newView then state else ⟨vc.newView, ∅, env.now⟩

def addViewChange (state : ViewChangeState) (vc : ViewChangeMessage) : ViewChangeState :=
  { state with viewChanges := state.viewChanges.insert vc.validator vc }

def staleViewChange (vc : ViewChangeMessage) : Bool :=
  match e.viewChangeState with
  | none => false
  | some state => decide (vc.newView < state.newView)

def handleViewChange (vc : ViewChangeMessage) : Outcome (Option NewViewMessage) × Engine :=
  match checkViewChange C env vc with
  | .error err => (.err err, e)
  | .ok () =>
    if staleViewChange e vc then (.ok none, e)
    else
      let state := addViewChange (stateFor env e vc) vc
      if env.quorumSize ≤ state.viewChanges.size ∧
          env.isLeader e.keypair.hotkey state.newView = true then
        (.ok (some (newNewView C env e state)), enterView e state.newView)
      else (.ok none, { e with viewChangeState := some state })

def checkViewChanges (C : Crypto) (env : Env) (view : ViewNumber) :
    List ViewChangeMessage → Except ConsensusError Unit
  | [] => .ok ()
  | vc :: vcs =>
    if vc.newView ≠ view then .error (.viewMismatch view vc.newView)
    else
      match checkSigned C env vc.validator vc.signingBytes vc.signature vc.validator.toHex with
      | .error err => .error err
      | .ok () => checkViewChanges C env view vcs

/-- The checks of `handle_new_view`, in their order. -/
def checkNewView (m : NewViewMessage) : Except ConsensusError Unit :=
  if env.isLeader m.leader m.view = false then
    .error (.invalidProposal
      (m.leader.debug ++ " is not the leader for view " ++ toString m.view.toNat))
  else
    match checkSigned C env m.leader m.signingBytes m.signature m.leader.toHex with
    | .error err => .error err
    | .ok () =>
      if m.viewChanges.length < env.quorumSize then
        .error (.notEnoughVotes env.quorumSize m.viewChanges.length)
      else checkViewChanges C env m.view m.viewChanges

def handleNewView (m : NewViewMessage) : Outcome Unit × Engine :=
  match checkNewView C env m with
  | .error err => (.err err, e)
  | .ok () => (.ok (), enterView e m.view)

/-! ## one step -/

inductive Op where
  | createProposal (changeType : StateChangeType) (data : Bytes)
  | handleProposal (p : ConsensusProposal)
  | createPrePrepare (view : ViewNumber) (sequence : SequenceNumber) (hash : Bytes32)
  | handlePrepare (p : PrepareMessage)
  | handleCommit (c : CommitMessage)
  | initiateViewChange (newView : ViewNumber)
  | handleViewChange (vc : ViewChangeMessage)
  | handleNewView (m : NewViewMessage)
deriving DecidableEq

/-- what a call returns when it returns `Ok` -/
inductive Output where
  | proposal (p : ConsensusProposal)
  | prepare (p : PrepareMessage)
  | prePrepare (p : PrePrepare)
  | commit (c : Option CommitMessage)
  | decision (d : Option ConsensusDecision)
  | viewChange (vc : ViewChangeMessage)
  | newView (m : Option NewViewMessage)
  | entered
deriving DecidableEq

def step : Op → Outcome Output × Engine
  | .createProposal ct data => Prod.map (Outcome.map .proposal) id (createProposal C env e ct data)
  | .handleProposal p => Prod.map (Outcome.map .prepare) id (handleProposal C env e p)
  | .createPrePrepare v s h =>
    Prod.map (Outcome.map .prePrepare) id (createPrePrepare C env e v s h)
  | .handlePrepare p => Prod.map (Outcome.map .commit) id (handlePrepare C env e p)
  | .handleCommit c => Prod.map (Outcome.map .decision) id (handleCommit C env e c)
  | .initiateViewChange v => Prod.map (Outcome.map .viewChange) id (initiateViewChange C env e v)
  | .handleViewChange vc => Prod.map (Outcome.map .newView) id (handleViewChange C env e vc)
  | .handleNewView m => Prod.map (Outcome.map fun _ => .entered) id (handleNewView C env e m)

end Platform.Consensus
