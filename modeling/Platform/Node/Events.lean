import Platform.Network.Gossip
import Platform.Consensus.Registry
import Platform.Consensus.Steps

/-!
# Events of the node (`bins/validator-node/src/main.rs`)

`handle_network_event` gets the message of a payload, without the signer that the gossip layer has
verified.  Consensus messages go to the engine, which checks their own signatures; a heartbeat is
written to the validator set as it is, and its signature is not looked at.
-/

namespace Platform.Node
open Lib Platform.Core Consensus Network

structure NodeState where
  engine : Engine
  validatorSet : ValidatorSet

/-- `handle_network_event` on `NetworkEvent::Message`; the results are only logged. -/
def handleMessage (C : Crypto) (sudoKey : Hotkey) (now : Int) (rng : Nat) (node : NodeState)
    (message : P2PMessage) : NodeState :=
  let env : Env := ⟨node.validatorSet, sudoKey, now, rng⟩
  match message with
  | .proposal p => { node with engine := (handleProposal C env node.engine p).2 }
  | .prepare p => { node with engine := (handlePrepare C env node.engine p).2 }
  | .commit c => { node with engine := (handleCommit C env node.engine c).2 }
  | .viewChange vc => { node with engine := (handleViewChange C env node.engine vc).2 }
  | .newView m => { node with engine := (handleNewView C env node.engine m).2 }
  | .heartbeat hb =>
    { node with
      validatorSet := (node.validatorSet.updateFromHeartbeat now hb.validator hb.stateHash
        hb.sequence hb.stake).2 }
  | _ => node

/-- the fields of a record that heartbeats write -/
structure Status where
  stake : UInt64
  lastSeen : Int
  stateHash : Bytes32
  lastSequence : SequenceNumber
  isActive : Bool
deriving DecidableEq

def statusOf (r : ValidatorRecord) : Status :=
  ⟨r.stake, r.lastSeen, r.stateHash, r.lastSequence, r.isActive⟩

variable (vs : ValidatorSet) (now : Int)

def status (k : Hotkey) : Option Status := (vs.validators.lookup k).map statusOf

def reported (hb : HeartbeatMessage) : Status :=
  ⟨vs.stakeToUse hb.validator hb.stake, now, hb.stateHash, hb.sequence, true⟩

def NoEffect (hb : HeartbeatMessage) : Prop :=
  (status vs hb.validator = none ∧ vs.stakeToUse hb.validator hb.stake < vs.minStake) ∨
    status vs hb.validator = some (reported vs now hb)

instance (hb : HeartbeatMessage) : Decidable (NoEffect vs now hb) :=
  inferInstanceAs (Decidable (_ ∨ _))

section
variable (C : Crypto) (sudoKey : Hotkey) (now : Int) (rng : Nat) (node : NodeState)

theorem status_heartbeat (hb : HeartbeatMessage) (k : Hotkey) :
    status (handleMessage C sudoKey now rng node (.heartbeat hb)).validatorSet k =
      if k = hb.validator then
        if status node.validatorSet k = none ∧
            node.validatorSet.stakeToUse hb.validator hb.stake < node.validatorSet.minStake then
          none
        else some (reported node.validatorSet now hb)
      else status node.validatorSet k := by
  unfold status handleMessage
  rw [ValidatorSet.lookup_updateFromHeartbeat]
  by_cases hk : k = hb.validator
  · subst hk
    rw [if_pos rfl, if_pos rfl]
    unfold ValidatorSet.heartbeatRecord
    cases node.validatorSet.validators.lookup hb.validator with
    | some r => rfl
    | none =>
      by_cases hm : node.validatorSet.minStake ≤ node.validatorSet.stakeToUse hb.validator hb.stake
      · rw [if_neg fun h => UInt64.not_lt.mpr hm h.2]
        dsimp only
        rw [if_pos hm]
        rfl
      · rw [if_pos ⟨rfl, UInt64.not_le.mp hm⟩]
        dsimp only
        rw [if_neg hm]
        rfl
  · rw [if_neg hk, if_neg hk]

theorem status_other {m : P2PMessage} (h : ∀ hb, m ≠ .heartbeat hb) :
    (handleMessage C sudoKey now rng node m).validatorSet = node.validatorSet := by
  cases m with
  | heartbeat hb => exact absurd rfl (h hb)
  | _ => rfl

theorem status_heartbeat_same_iff (hb : HeartbeatMessage) :
    status (handleMessage C sudoKey now rng node (.heartbeat hb)).validatorSet hb.validator =
      status node.validatorSet hb.validator ↔ NoEffect node.validatorSet now hb := by
  rw [status_heartbeat, if_pos rfl]
  split
  · rename_i h
    exact ⟨fun _ => Or.inl h, fun _ => h.1.symm⟩
  · rename_i h
    constructor
    · intro he
      exact Or.inr he.symm
    · rintro (h' | he)
      · exact absurd h' h
      · exact he.symm

end

/-- **Heartbeats speak only for their signer** exactly when they are in the signer's own name or
without effect: for every payload that the gossip layer accepts and the node then processes, no
record but that of the signer changes its status, if and only if a heartbeat in it names the signer
or has no effect. -/
theorem heartbeat_signer_iff (C : Crypto) (W : Wire) (t₁ t₂ : Int) (net : P2PNetwork)
    (source : PeerId) (data : Bytes) (signed : SignedP2PMessage) (m : P2PMessage)
    (hd : W.decode data = .ok signed)
    (hacc : (handleGossipsubMessage C W t₁ t₂ net source data).1 = .ok m)
    (sudoKey : Hotkey) (now : Int) (rng : Nat) (node : NodeState) :
    (∀ k, k ≠ signed.signer →
      status (handleMessage C sudoKey now rng node m).validatorSet k = status node.validatorSet k) ↔
    ∀ hb, signed.message = .heartbeat hb →
      hb.validator = signed.signer ∨ NoEffect node.validatorSet now hb := by
  obtain rfl : m = signed.message := by
    have hcs := handle_cases C W t₁ t₂ net source data
    rw [hacc] at hcs
    generalize (handleGossipsubMessage C W t₁ t₂ net source data).2 = net' at hcs
    cases hcs with
    | accepted signed' hd' _ _ _ =>
      obtain rfl : signed = signed' := Except.ok.inj (hd.symm.trans hd')
      rfl
  constructor
  · intro h hb hm
    by_cases hk : hb.validator = signed.signer
    · exact Or.inl hk
    · have hs := h hb.validator hk
      rw [hm] at hs
      exact Or.inr ((status_heartbeat_same_iff C sudoKey now rng node hb).mp hs)
  · intro h k hk
    by_cases hm : ∃ hb, signed.message = .heartbeat hb
    · obtain ⟨hb, hm⟩ := hm
      rw [hm]
      by_cases hkb : k = hb.validator
      · subst hkb
        rcases h hb hm with hsig | hno
        · exact absurd hsig hk
        · exact (status_heartbeat_same_iff C sudoKey now rng node hb).mpr hno
      · rw [status_heartbeat, if_neg hkb]
    · rw [status_other C sudoKey now rng node fun hb he => hm ⟨hb, he⟩]

/-- validator `0` of four, at the start -/
def sampleNode : NodeState := ⟨Engine.new (sampleKey 0), ValidatorSet.sample 0 4⟩

def sampleOwn : SignedP2PMessage := sampleSigned 1 1 (sampleHeartbeat 1 5000)

def sampleAlien : SignedP2PMessage := sampleSigned 1 1 (sampleHeartbeat 2 1)

/-- Validator `1` reports a stake of its own. -/
theorem heartbeat_signer_own :
    (handleGossipsubMessage sampleCrypto (sampleWire [sampleOwn]) 0 0 .new ⟨[1]⟩
      (samplePayload sampleOwn)).1 = .ok sampleOwn.message ∧
    ∀ k, k ≠ sampleOwn.signer →
      status (handleMessage sampleCrypto (.ofByte 0) 5 0 sampleNode
        sampleOwn.message).validatorSet k = status sampleNode.validatorSet k :=
  ⟨by decide +kernel, (heartbeat_signer_iff sampleCrypto (sampleWire [sampleOwn]) 0 0 .new ⟨[1]⟩
    (samplePayload sampleOwn) sampleOwn sampleOwn.message (by decide +kernel) (by decide +kernel)
    (.ofByte 0) 5 0 sampleNode).mpr fun hb h => Or.inl (by cases h; rfl)⟩

/-- **A heartbeat for another validator.**  Validator `1` signs a heartbeat that names validator `2`
and a stake of `1`; it is accepted, and validator `2` is down to a stake of `1`. -/
theorem heartbeat_for_another :
    ¬ ∀ (C : Crypto) (W : Wire) (t₁ t₂ : Int) (net : P2PNetwork) (source : PeerId) (data : Bytes)
      (signed : SignedP2PMessage) (m : P2PMessage), W.decode data = .ok signed →
      (handleGossipsubMessage C W t₁ t₂ net source data).1 = .ok m →
      ∀ (sudoKey : Hotkey) (now : Int) (rng : Nat) (node : NodeState) (k : Hotkey),
        k ≠ signed.signer →
        status (handleMessage C sudoKey now rng node m).validatorSet k =
          status node.validatorSet k := by
  intro h
  have hs := h sampleCrypto (sampleWire [sampleAlien]) 0 0 .new ⟨[1]⟩ (samplePayload sampleAlien)
    sampleAlien sampleAlien.message (by decide +kernel) (by decide +kernel) (.ofByte 0) 5 0
    sampleNode (.ofByte 2) (by decide +kernel)
  revert hs
  decide +kernel

end Platform.Node
