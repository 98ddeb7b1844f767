import Platform.Network.Gossip

/-!
# Peers and their hotkeys

The two maps of a `PeerMapping` are written side by side, and an insertion takes nothing out of
either.
-/

namespace Platform.Network
open Lib Platform.Core

namespace PeerMapping

def getHotkey (pm : PeerMapping) (peer : PeerId) : Option Hotkey := pm.peerToHotkey.lookup peer

def getPeer (pm : PeerMapping) (hotkey : Hotkey) : Option PeerId := pm.hotkeyToPeer.lookup hotkey

def removePeer (pm : PeerMapping) (peer : PeerId) : PeerMapping :=
  match pm.peerToHotkey.lookup peer with
  | some hotkey => ⟨pm.peerToHotkey.erase peer, pm.hotkeyToPeer.erase hotkey⟩
  | none => pm

def MutuallyInverse (pm : PeerMapping) : Prop :=
  ∀ peer hotkey, pm.getHotkey peer = some hotkey ↔ pm.getPeer hotkey = some peer

end PeerMapping

inductive PeerOp where
  | insert (peer : PeerId) (hotkey : Hotkey)
  | removePeer (peer : PeerId)

def peerNext (pm : PeerMapping) : PeerOp → Unit × PeerMapping
  | .insert peer hotkey => ((), pm.insert peer hotkey)
  | .removePeer peer => ((), pm.removePeer peer)

/-- an insertion finds neither the peer nor the hotkey mapped to another one -/
def PeerOp.Fits (pm : PeerMapping) : PeerOp → Prop
  | .insert peer hotkey =>
    (∀ other ∈ pm.getHotkey peer, other = hotkey) ∧ ∀ other ∈ pm.getPeer hotkey, other = peer
  | .removePeer _ => True

section
variable {pm : PeerMapping} (h : pm.MutuallyInverse)
include h

theorem inverse_insert_iff (peer : PeerId) (hotkey : Hotkey) :
    (pm.insert peer hotkey).MutuallyInverse ↔ PeerOp.Fits pm (.insert peer hotkey) := by
  have hky : ∀ p k, (pm.insert peer hotkey).getHotkey p = some k ↔
      p = peer ∧ k = hotkey ∨ p ≠ peer ∧ pm.getHotkey p = some k := fun p k =>
    HashMap.lookup_insert_iff ..
  have hpr : ∀ p k, (pm.insert peer hotkey).getPeer k = some p ↔
      k = hotkey ∧ p = peer ∨ k ≠ hotkey ∧ pm.getPeer k = some p := fun p k =>
    HashMap.lookup_insert_iff ..
  constructor
  · intro ha
    constructor
    · intro k hk
      by_contra hne
      -- the old hotkey still leads to the peer
      have ho := (ha peer k).mpr ((hpr peer k).mpr (.inr ⟨hne, (h peer k).mp hk⟩))
      grind
    · intro p hp
      by_contra hne
      have ho := (ha p hotkey).mp ((hky p hotkey).mpr (.inr ⟨hne, (h p hotkey).mpr hp⟩))
      grind
  · rintro ⟨hk, hp⟩ p k
    have hk' : pm.getPeer k = some peer → k = hotkey := fun hin => hk k ((h peer k).mpr hin)
    have hp' : pm.getPeer hotkey = some p → p = peer := hp p
    rw [hky, hpr, h p k]
    grind

theorem inverse_removePeer (peer : PeerId) : (pm.removePeer peer).MutuallyInverse := by
  unfold PeerMapping.removePeer
  split
  · rename_i hotkey hm
    intro p k
    have hbk : pm.getPeer hotkey = some peer := (h peer hotkey).mp hm
    have hpk := h p k
    unfold PeerMapping.getHotkey PeerMapping.getPeer at *
    rw [HashMap.lookup_erase_iff, HashMap.lookup_erase_iff]
    grind
  · exact h

theorem inverse_next_iff (op : PeerOp) : (peerNext pm op).2.MutuallyInverse ↔ op.Fits pm := by
  cases op with
  | insert peer hotkey => exact inverse_insert_iff h peer hotkey
  | removePeer peer => exact iff_of_true (inverse_removePeer h peer) trivial

theorem inverse_trace_iff (ops : List PeerOp) :
    (∀ c ∈ (trace peerNext pm ops).1, c.after.MutuallyInverse) ↔
      ∀ c ∈ (trace peerNext pm ops).1, c.input.Fits c.before := by
  induction ops generalizing pm with
  | nil => exact iff_of_true (fun c hc => nomatch hc) fun c hc => nomatch hc
  | cons op ops ih =>
    rw [trace_cons, List.forall_mem_cons, List.forall_mem_cons, inverse_next_iff h]
    exact and_congr_right fun hop => ih ((inverse_next_iff h op).mpr hop)

end

/-- **When the mapping is a bijection.**  In a sequence of insertions and removals the two maps stay
inverse to each other, if and only if no insertion finds its peer or its hotkey mapped to another
one. -/
theorem peers_inverse_iff (ops : List PeerOp) :
    (∀ c ∈ (trace peerNext .new ops).1, c.after.MutuallyInverse) ↔
      ∀ c ∈ (trace peerNext .new ops).1, c.input.Fits c.before := by
  refine inverse_trace_iff (fun peer hotkey => ?_) ops
  simp [PeerMapping.getHotkey, PeerMapping.getPeer, PeerMapping.new]

/-- Two peers of one hotkey: when the first one is gone, so is the way to the second one. -/
theorem peers_of_one_hotkey :
    ¬ ∀ ops : List PeerOp, (trace peerNext .new ops).2.MutuallyInverse := by
  intro h
  have hls := h [.insert ⟨[1]⟩ (.ofByte 7), .insert ⟨[2]⟩ (.ofByte 7), .removePeer ⟨[1]⟩]
    ⟨[2]⟩ (.ofByte 7)
  revert hls
  decide +kernel

end Platform.Network
