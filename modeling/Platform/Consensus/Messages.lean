import Platform.Core.Crypto

/-!
# Consensus messages (`crates/p2p-consensus/src/messages.rs`)

The messages of the protocol and the bytes each of them is signed over.  The source declares one
signing struct per message kind inside the functions that sign or check it; `bincode` writes a
struct as its fields without any tag, so four of the six kinds share one layout (`voteBytes`).
-/

namespace Platform.Consensus
open Lib Platform.Core

abbrev ViewNumber := UInt64
abbrev SequenceNumber := UInt64

inductive StateChangeType where
  | challengeSubmission
  | evaluationResult
  | weightUpdate
  | validatorChange
  | configUpdate
  | epochTransition
deriving DecidableEq

structure ProposalContent where
  changeType : StateChangeType
  data : Bytes
  dataHash : Bytes32
deriving DecidableEq

structure ConsensusProposal where
  view : ViewNumber
  sequence : SequenceNumber
  proposal : ProposalContent
  proposer : Hotkey
  signature : Bytes
  timestamp : Int
deriving DecidableEq

structure PrePrepare where
  view : ViewNumber
  sequence : SequenceNumber
  proposalHash : Bytes32
  leader : Hotkey
  signature : Bytes
deriving DecidableEq

structure PrepareMessage where
  view : ViewNumber
  sequence : SequenceNumber
  proposalHash : Bytes32
  validator : Hotkey
  signature : Bytes
deriving DecidableEq

structure CommitMessage where
  view : ViewNumber
  sequence : SequenceNumber
  proposalHash : Bytes32
  validator : Hotkey
  signature : Bytes
deriving DecidableEq

structure PreparedProof where
  prePrepare : PrePrepare
  prepares : List PrepareMessage
deriving DecidableEq

structure ViewChangeMessage where
  newView : ViewNumber
  lastPreparedSequence : Option SequenceNumber
  preparedProof : Option PreparedProof
  validator : Hotkey
  signature : Bytes
deriving DecidableEq

structure NewViewMessage where
  view : ViewNumber
  viewChanges : List ViewChangeMessage
  leader : Hotkey
  signature : Bytes
deriving DecidableEq

/-- The stake is self-reported. -/
structure HeartbeatMessage where
  validator : Hotkey
  stateHash : Bytes32
  sequence : SequenceNumber
  stake : UInt64
  timestamp : Int
  signature : Bytes
deriving DecidableEq

def sampleHeartbeat (i : UInt8) (stake : UInt64) : HeartbeatMessage :=
  ⟨.ofByte i, (Hotkey.ofByte 0).key, 7, stake, 0, []⟩

/-! ## the signed bytes -/

def voteBytes (view : ViewNumber) (sequence : SequenceNumber) (hash : Bytes32) : Bytes :=
  encodeU64 view ++ encodeU64 sequence ++ hash.bytes

def ConsensusProposal.signingBytes (p : ConsensusProposal) : Bytes :=
  voteBytes p.view p.sequence p.proposal.dataHash

def PrePrepare.signingBytes (p : PrePrepare) : Bytes := voteBytes p.view p.sequence p.proposalHash

def PrepareMessage.signingBytes (p : PrepareMessage) : Bytes :=
  voteBytes p.view p.sequence p.proposalHash

def CommitMessage.signingBytes (c : CommitMessage) : Bytes :=
  voteBytes c.view c.sequence c.proposalHash

def viewChangeBytes (newView : ViewNumber) (last : Option SequenceNumber) : Bytes :=
  encodeU64 newView ++ encodeOption encodeU64 last

def ViewChangeMessage.signingBytes (vc : ViewChangeMessage) : Bytes :=
  viewChangeBytes vc.newView vc.lastPreparedSequence

def newViewBytes (view : ViewNumber) : Bytes := encodeU64 view

def NewViewMessage.signingBytes (m : NewViewMessage) : Bytes := newViewBytes m.view

theorem length_voteBytes (v : ViewNumber) (s : SequenceNumber) (h : Bytes32) :
    (voteBytes v s h).length = 48 := by
  simp [voteBytes, h.len]

theorem voteBytes_inj {v v' : ViewNumber} {s s' : SequenceNumber} {h h' : Bytes32}
    (e : voteBytes v s h = voteBytes v' s' h') : v = v' ∧ s = s' ∧ h = h' := by
  obtain ⟨e1, e2⟩ := List.append_inj e (by simp)
  obtain ⟨e3, e4⟩ := List.append_inj e1 (by simp)
  exact ⟨encodeU64_inj e3, encodeU64_inj e4, Bytes32.bytes_inj e2⟩

theorem some_vote_inj {v v' : ViewNumber} {s s' : SequenceNumber} {h h' : Bytes32}
    (e : some (v, s, h) = some (v', s', h')) : v = v' ∧ s = s' ∧ h = h' := by
  cases e
  exact ⟨rfl, rfl, rfl⟩

theorem length_viewChangeBytes (v : ViewNumber) (o : Option SequenceNumber) :
    (viewChangeBytes v o).length = if o = none then 9 else 17 := by
  cases o <;> simp [viewChangeBytes, encodeOption]

theorem voteBytes_ne_viewChangeBytes (v : ViewNumber) (s : SequenceNumber) (h : Bytes32)
    (v' : ViewNumber) (o : Option SequenceNumber) : voteBytes v s h ≠ viewChangeBytes v' o := by
  intro e
  have hl := congrArg List.length e
  rw [length_voteBytes, length_viewChangeBytes] at hl
  split at hl <;> omega

theorem voteBytes_ne_newViewBytes (v : ViewNumber) (s : SequenceNumber) (h : Bytes32)
    (v' : ViewNumber) : voteBytes v s h ≠ newViewBytes v' := by
  intro e
  have hl := congrArg List.length e
  rw [length_voteBytes, newViewBytes, length_encodeU64] at hl
  omega

end Platform.Consensus
