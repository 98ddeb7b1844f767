import Platform.Consensus.Messages
import Platform.Lib.Window
import Platform.Lib.Machine

/-!
# The gossip layer (`crates/p2p-consensus/src/network.rs`)

`handle_gossipsub_message` decodes a payload, verifies its signature, counts it against the rate
limit of its signer and looks its nonce up, in this order.  Every check that writes keeps what it
wrote when a later check fails.

`bincode` is third-party code and enters as the parameter `Wire`; `bincode::serialize` does not fail
on these types.  The message kinds that the node does not handle carry their payload in encoded
form.  Each check reads the clock for itself, so a call has two readings.

Main results: `handle_cases` (all that one call can do) and the runs `NetRun`.
-/

namespace Platform.Network
open Lib Platform.Core Consensus

structure PeerId where
  bytes : Bytes
deriving DecidableEq

inductive P2PMessage where
  | proposal (p : ConsensusProposal)
  | prePrepare (p : PrePrepare)
  | prepare (p : PrepareMessage)
  | commit (c : CommitMessage)
  | viewChange (vc : ViewChangeMessage)
  | newView (m : NewViewMessage)
  | stateRequest (payload : Bytes)
  | stateResponse (payload : Bytes)
  | submission (payload : Bytes)
  | evaluation (payload : Bytes)
  | weightVote (payload : Bytes)
  | heartbeat (hb : HeartbeatMessage)
  | peerAnnounce (payload : Bytes)
deriving DecidableEq

structure SignedP2PMessage where
  message : P2PMessage
  signer : Hotkey
  signature : Bytes
  nonce : UInt64
deriving DecidableEq

/-- `bincode` on network messages -/
structure Wire where
  decode : Bytes → Except String SignedP2PMessage
  encode : P2PMessage → Bytes

variable (C : Crypto) (W : Wire) (now : Int) (net : P2PNetwork) (source : PeerId) (signer : Hotkey)

def SignedP2PMessage.signingBytes (m : SignedP2PMessage) : Bytes :=
  W.encode m.message ++ encodeU64 m.nonce

inductive NetworkError where
  | serialization (msg : String)
  | gossipsub (msg : String)
  | replayAttack (signer : String) (nonce : UInt64)
  | rateLimitExceeded (signer : String) (count : UInt32)
deriving DecidableEq

structure PeerMapping where
  peerToHotkey : HashMap PeerId Hotkey
  hotkeyToPeer : HashMap Hotkey PeerId

def PeerMapping.new : PeerMapping := ⟨∅, ∅⟩

def PeerMapping.insert (pm : PeerMapping) (peer : PeerId) (hotkey : Hotkey) : PeerMapping where
  peerToHotkey := pm.peerToHotkey.insert peer hotkey
  hotkeyToPeer := pm.hotkeyToPeer.insert hotkey peer

/-- the fields of a `P2PNetwork` that its message handler reads and writes -/
structure P2PNetwork where
  peerMapping : PeerMapping
  seenNonces : HashMap Hotkey (HashMap UInt64 Int)
  messageTimestamps : HashMap Hotkey (List Int)

def P2PNetwork.new : P2PNetwork := ⟨.new, ∅, ∅⟩

/-- `DEFAULT_RATE_LIMIT` -/
def rateLimit : Nat := 100

def rateLimitWindowMs : Int := 1000

def nonceExpiryMs : Int := 5 * 60 * 1000

def verifyMessage (m : SignedP2PMessage) : Bool :=
  match (SignedMessage.mk (m.signingBytes W) m.signature m.signer).verify C with
  | .ok valid => valid
  | .error _ => false

def P2PNetwork.queue : List Int :=
  (net.messageTimestamps.lookup signer).getD []

def P2PNetwork.nonces : HashMap UInt64 Int :=
  (net.seenNonces.lookup signer).getD ∅

def P2PNetwork.setQueue (q : List Int) : P2PNetwork :=
  { net with messageTimestamps := net.messageTimestamps.insert signer q }

def P2PNetwork.setNonces (ns : HashMap UInt64 Int) : P2PNetwork :=
  { net with seenNonces := net.seenNonces.insert signer ns }

def checkRateLimit : Except NetworkError Unit × P2PNetwork :=
  let queue := recent now rateLimitWindowMs (net.queue signer)
  if rateLimit ≤ queue.length then
    (.error (.rateLimitExceeded signer.toHex (.ofNat queue.length)), net.setQueue signer queue)
  else (.ok (), net.setQueue signer (queue ++ [now]))

def checkReplay (nonce : UInt64) : Except NetworkError Unit × P2PNetwork :=
  let nonces := unexpired now nonceExpiryMs (net.nonces signer)
  if nonce ∈ nonces then
    (.error (.replayAttack signer.toHex nonce), net.setNonces signer nonces)
  else (.ok (), net.setNonces signer (nonces.insert nonce now))

def mapPeer : P2PNetwork :=
  match net.peerMapping.peerToHotkey.lookup source with
  | some _ => net
  | none => { net with peerMapping := net.peerMapping.insert source signer }

def handleGossipsubMessage (t₁ t₂ : Int) (net : P2PNetwork) (source : PeerId) (data : Bytes) :
    Except NetworkError P2PMessage × P2PNetwork :=
  match W.decode data with
  | .error err => (.error (.serialization err), net)
  | .ok signed =>
    if verifyMessage C W signed = false then
      (.error (.gossipsub "Invalid message signature"), net)
    else
      match checkRateLimit t₁ net signed.signer with
      | (.error err, net) => (.error err, net)
      | (.ok (), net) =>
        match checkReplay t₂ net signed.signer signed.nonce with
        | (.error err, net) => (.error err, net)
        | (.ok (), net) => (.ok signed.message, mapPeer net source signed.signer)

def maxAgeMs (maxAgeSecs : UInt64) : Int := (maxAgeSecs * 1000).toInt64.toInt

def cleanOldNonces (maxAgeSecs : UInt64) : P2PNetwork :=
  { net with
    seenNonces := (net.seenNonces.mapValues (unexpired now (maxAgeMs maxAgeSecs))).retain
      fun _ nonces => nonces.size != 0 }

def cleanRateLimitEntries : P2PNetwork :=
  { net with
    messageTimestamps := (net.messageTimestamps.mapValues (recent now rateLimitWindowMs)).retain
      fun _ queue => queue.length != 0 }

/-! ## small facts -/

@[simp] theorem mapPeer_seenNonces : (mapPeer net source signer).seenNonces = net.seenNonces := by
  unfold mapPeer
  split <;> rfl

@[simp] theorem mapPeer_messageTimestamps :
    (mapPeer net source signer).messageTimestamps = net.messageTimestamps := by
  unfold mapPeer
  split <;> rfl

section
variable (net : P2PNetwork) (s : Hotkey)

theorem queue_setQueue (signer : Hotkey) (q : List Int) :
    (net.setQueue signer q).queue s = if s = signer then q else net.queue s := by
  unfold P2PNetwork.queue P2PNetwork.setQueue
  by_cases h : s = signer
  · subst h
    simp
  · simp [h, AList.lookup_insert_ne h]

theorem nonces_setNonces (signer : Hotkey) (ns : HashMap UInt64 Int) :
    (net.setNonces signer ns).nonces s = if s = signer then ns else net.nonces s := by
  unfold P2PNetwork.nonces P2PNetwork.setNonces
  by_cases h : s = signer
  · subst h
    simp
  · simp [h, AList.lookup_insert_ne h]

@[simp] theorem nonces_setQueue (signer : Hotkey) (q : List Int) :
    (net.setQueue signer q).nonces s = net.nonces s := rfl

@[simp] theorem queue_setNonces (signer : Hotkey) (ns : HashMap UInt64 Int) :
    (net.setNonces signer ns).queue s = net.queue s := rfl

@[simp] theorem queue_mapPeer (source : PeerId) (signer : Hotkey) :
    (mapPeer net source signer).queue s = net.queue s := by
  unfold P2PNetwork.queue
  rw [mapPeer_messageTimestamps]

@[simp] theorem nonces_mapPeer (source : PeerId) (signer : Hotkey) :
    (mapPeer net source signer).nonces s = net.nonces s := by
  unfold P2PNetwork.nonces
  rw [mapPeer_seenNonces]

theorem nonces_cleanOldNonces (now : Int) (secs : UInt64) :
    (cleanOldNonces now net secs).nonces s = unexpired now (maxAgeMs secs) (net.nonces s) := by
  unfold P2PNetwork.nonces cleanOldNonces
  rw [HashMap.getD_lookup_retain _ _ fun ns h => HashMap.eq_empty_of_size (by simpa using h),
    HashMap.lookup_mapValues]
  cases net.seenNonces.lookup s <;> rfl

theorem queue_cleanRateLimitEntries (now : Int) :
    (cleanRateLimitEntries now net).queue s = recent now rateLimitWindowMs (net.queue s) := by
  unfold P2PNetwork.queue cleanRateLimitEntries
  rw [HashMap.getD_lookup_retain _ _ fun q h => List.eq_nil_of_length_eq_zero (by simpa using h),
    HashMap.lookup_mapValues]
  cases net.messageTimestamps.lookup s <;> rfl

end

/-! ## one call -/

section
variable (C : Crypto) (W : Wire) (t₁ t₂ : Int) (net : P2PNetwork) (source : PeerId) (data : Bytes)

def countMessage (signer : Hotkey) : P2PNetwork :=
  net.setQueue signer (recent t₁ rateLimitWindowMs (net.queue signer) ++ [t₁])

/-- Everything that `handle_gossipsub_message` can do. -/
inductive Handled : Except NetworkError P2PMessage → P2PNetwork → Prop
  | undecodable (err : String) (hd : W.decode data = .error err) :
      Handled (.error (.serialization err)) net
  | badSignature (m : SignedP2PMessage) (hd : W.decode data = .ok m)
      (hv : verifyMessage C W m = false) :
      Handled (.error (.gossipsub "Invalid message signature")) net
  | limited (m : SignedP2PMessage) (hd : W.decode data = .ok m) (hv : verifyMessage C W m = true)
      (hq : rateLimit ≤ (recent t₁ rateLimitWindowMs (net.queue m.signer)).length) :
      Handled (.error (.rateLimitExceeded m.signer.toHex
          (.ofNat (recent t₁ rateLimitWindowMs (net.queue m.signer)).length)))
        (net.setQueue m.signer (recent t₁ rateLimitWindowMs (net.queue m.signer)))
  | replayed (m : SignedP2PMessage) (hd : W.decode data = .ok m) (hv : verifyMessage C W m = true)
      (hq : (recent t₁ rateLimitWindowMs (net.queue m.signer)).length < rateLimit)
      (hn : m.nonce ∈ unexpired t₂ nonceExpiryMs (net.nonces m.signer)) :
      Handled (.error (.replayAttack m.signer.toHex m.nonce))
        ((countMessage t₁ net m.signer).setNonces m.signer
          (unexpired t₂ nonceExpiryMs (net.nonces m.signer)))
  | accepted (m : SignedP2PMessage) (hd : W.decode data = .ok m) (hv : verifyMessage C W m = true)
      (hq : (recent t₁ rateLimitWindowMs (net.queue m.signer)).length < rateLimit)
      (hn : m.nonce ∉ unexpired t₂ nonceExpiryMs (net.nonces m.signer)) :
      Handled (.ok m.message)
        (mapPeer ((countMessage t₁ net m.signer).setNonces m.signer
          ((unexpired t₂ nonceExpiryMs (net.nonces m.signer)).insert m.nonce t₂)) source m.signer)

theorem handle_cases : Handled C W t₁ t₂ net source data
    (handleGossipsubMessage C W t₁ t₂ net source data).1
    (handleGossipsubMessage C W t₁ t₂ net source data).2 := by
  unfold handleGossipsubMessage
  cases hd : W.decode data with
  | error err => exact .undecodable err hd
  | ok m =>
    cases hv : verifyMessage C W m with
    | false =>
      simp only [hv, if_true]
      exact .badSignature m hd hv
    | true =>
      simp only [hv, Bool.true_eq_false, if_false]
      by_cases hq : rateLimit ≤ (recent t₁ rateLimitWindowMs (net.queue m.signer)).length
      · simp only [checkRateLimit, if_pos hq]
        exact .limited m hd hv hq
      · simp only [checkRateLimit, if_neg hq, checkReplay]
        by_cases hn : m.nonce ∈ unexpired t₂ nonceExpiryMs (net.nonces m.signer)
        · rw [nonces_setQueue, if_pos hn]
          exact .replayed m hd hv (Nat.lt_of_not_le hq) hn
        · rw [nonces_setQueue, if_neg hn]
          exact .accepted m hd hv (Nat.lt_of_not_le hq) hn

end

/-! ## runs -/

/-- the calls of one network object; each brings its clock readings -/
inductive NetOp where
  | handle (source : PeerId) (data : Bytes) (t₁ t₂ : Int)
  | cleanOldNonces (maxAgeSecs : UInt64) (now : Int)
  | cleanRateLimitEntries (now : Int)
deriving DecidableEq

def NetOp.times : NetOp → List Int
  | .handle _ _ t₁ t₂ => [t₁, t₂]
  | .cleanOldNonces _ now => [now]
  | .cleanRateLimitEntries now => [now]

/-- what a call returns; the cleaning calls return nothing -/
abbrev NetOut := Option (Except NetworkError P2PMessage)

def netNext : NetOp → NetOut × P2PNetwork
  | .handle source data t₁ t₂ =>
    let r := handleGossipsubMessage C W t₁ t₂ net source data
    (some r.1, r.2)
  | .cleanOldNonces maxAgeSecs now => (none, cleanOldNonces now net maxAgeSecs)
  | .cleanRateLimitEntries now => (none, cleanRateLimitEntries now net)

abbrev NetCall := Call P2PNetwork NetOp NetOut

def NetRun (l : List NetCall) (net' : P2PNetwork) : Prop :=
  MachineRun (netNext C W) net l net'

def readings (l : List NetCall) : List Int := l.flatMap fun c => c.input.times

/-- The clock does not go back. -/
def ClockForward (l : List NetCall) : Prop := (readings l).Pairwise (· ≤ ·)

instance (l : List NetCall) : Decidable (ClockForward l) :=
  inferInstanceAs (Decidable ((readings l).Pairwise (· ≤ ·)))

theorem readings_append (l l' : List NetCall) : readings (l ++ l') = readings l ++ readings l' :=
  List.flatMap_append

theorem CallStep.handled {C : Crypto} {W : Wire} {net net' : P2PNetwork} {c : NetCall}
    (hs : CallStep (netNext C W) net c net') {source : PeerId} {data : Bytes} {t₁ t₂ : Int}
    (hin : c.input = .handle source data t₁ t₂) :
    ∃ res, c.out = some res ∧ Handled C W t₁ t₂ net source data res net' := by
  have hnx := hs.2.2
  rw [hin] at hnx
  obtain ⟨ho, rfl⟩ := Prod.mk.inj hnx
  exact ⟨_, ho.symm, handle_cases C W t₁ t₂ net source data⟩

def accepted (c : NetCall) : Bool :=
  match c.out with
  | some (.ok _) => true
  | _ => false

def Accepts (c : NetCall) (m : SignedP2PMessage) (t₁ t₂ : Int) : Prop :=
  ∃ source data, c.input = .handle source data t₁ t₂ ∧ W.decode data = .ok m ∧
    c.out = some (.ok m.message)

/-! ## heartbeats on the wire

A concrete `Wire` for runs that send nothing but the heartbeats `ms`: the layout is that of
`bincode` (variant index, fields in order, vectors after their length). -/

def encodeVec (bs : Bytes) : Bytes := encodeU64 (.ofNat bs.length) ++ bs

def sampleEncode : P2PMessage → Bytes
  | .heartbeat hb =>
    leBytes 4 11 ++ hb.validator.key.bytes ++ hb.stateHash.bytes ++ encodeU64 hb.sequence ++
      encodeU64 hb.stake ++ leBytes 8 (hb.timestamp % 2 ^ 64).toNat ++ encodeVec hb.signature
  | _ => []

/-- `bincode::serialize` of a signed heartbeat -/
def samplePayload (m : SignedP2PMessage) : Bytes :=
  sampleEncode m.message ++ m.signer.key.bytes ++ encodeVec m.signature ++ encodeU64 m.nonce

def sampleWire (ms : List SignedP2PMessage) : Wire where
  decode data :=
    match ms.find? fun m => decide (samplePayload m = data) with
    | some m => .ok m
    | none => .error "unexpected end of file"
  encode := sampleEncode

def sampleSigned (i : UInt8) (nonce : UInt64) (hb : HeartbeatMessage) : SignedP2PMessage where
  message := .heartbeat hb
  signer := .ofByte i
  signature := sampleCrypto.sign ⟨.ofByte i⟩ 0 (sampleEncode (.heartbeat hb) ++ encodeU64 nonce)
  nonce := nonce

/-- the message `m` arrives at time `t` -/
def arrives (m : SignedP2PMessage) (t : Int) : NetOp := .handle ⟨[1]⟩ (samplePayload m) t t

end Platform.Network
