import Platform.Subnet.Executor

/-!
# Repeated commands (`crates/subnet-manager/src/commands.rs`)

A signed command carries no number and no time, so whoever has seen it can send it again.  Two runs
are compared, one with repetitions of messages that came before.  The history of the recovery is not
read by any command, and each call has its own pattern of file failures: what counts is the rest of
the node (`core`).
-/

namespace Platform.Subnet
open Platform.Core Lib Chain

/-- one call of `execute` -/
structure CommandInput (T : Type) where
  env : CommandEnv T
  signed : SignedMessage

section
variable {F T : Type}

def SubnetNode.core (n : SubnetNode F T) : SubnetNode F T :=
  { n with recovery := { n.recovery with history := [] }, disk := ⟨n.disk.files, []⟩ }

def SubnetNode.outcome (n : SubnetNode F T) :
    ChainState T × BanList T × List (Update T) × SnapshotManager T × Bool :=
  (n.state, n.bans, n.updates.pending, n.snapshots, n.recovery.paused)

variable [LinearOrder T] {C : Crypto} {text : JsonText} {fmt : DateFormat T}
  {fromString : String → ChallengeId} {decode : Bytes → Except String SubnetCommand}
  {env : CommandEnv T} {n n' : SubnetNode F T} {cmd : SubnetCommand}

/-- **What a command does depends on the core**, and it leaves the key of the owner. -/
theorem core_executeCommand (fts : List (Option Fault)) :
    ((n.core.withFaults fts).executeCommand C text fmt fromString env cmd).2.core =
        ((n.withFaults fts).executeCommand C text fmt fromString env cmd).2.core ∧
      ((n.withFaults fts).executeCommand C text fmt fromString env cmd).2.sudoKey = n.sudoKey := by
  have hu : ∀ kind key found,
      ((n.core.withFaults fts).unban text fmt kind key found).2.core =
          ((n.withFaults fts).unban text fmt kind key found).2.core ∧
        ((n.withFaults fts).unban text fmt kind key found).2.sudoKey = n.sudoKey := by
    intro kind key found
    unfold SubnetNode.unban
    split <;> exact ⟨rfl, rfl⟩
  cases cmd with
  | updateChallenge id cfg wasm =>
    simp only [SubnetNode.executeCommand, SubnetNode.updateChallenge]
    cases wasm <;> split <;> exact ⟨rfl, rfl⟩
  | kickValidator hotkey why =>
    refine ⟨rfl, ?_⟩
    simp only [SubnetNode.executeCommand, CommandExecutor.kickValidator]
    split <;> rfl
  | unbanValidator hotkey | unbanHotkey hotkey | unbanColdkey coldkey => exact hu _ _ _
  | createSnapshot name why =>
    obtain ⟨_, _, _, _, _, _, _⟩ := n
    simp only [SubnetNode.executeCommand, SubnetNode.core, SubnetNode.withFaults]
    split <;> exact ⟨rfl, rfl⟩
  | rollbackToSnapshot id =>
    obtain ⟨_, _, _, _, _, _, _⟩ := n
    simp only [SubnetNode.executeCommand, SubnetNode.rollback, SubnetNode.core,
      SubnetNode.withFaults]
    split
    · exact ⟨rfl, rfl⟩
    · split <;> exact ⟨rfl, rfl⟩
  | triggerRecovery act =>
    cases act with
    | rollbackToSnapshot id =>
      obtain ⟨_, _, _, _, _, _, _⟩ := n
      simp only [SubnetNode.executeCommand, SubnetNode.manualRecovery, executeRecovery,
        performAction, SubnetNode.core, SubnetNode.withFaults]
      split <;> exact ⟨rfl, trivial⟩
    | _ => exact ⟨rfl, rfl⟩
  | _ => exact ⟨rfl, rfl⟩

/-! ## commands that have nothing left to do -/

/-- The command is a query, or there is nothing left for it to do. -/
def Settled (fromString : String → ChallengeId) (n : SubnetNode F T) : SubnetCommand → Prop
  | .pauseChallenge _ | .resumeChallenge _ | .syncValidators | .listBanned | .getStatus | .getHealth
  | .listChallenges | .listValidators | .listSnapshots => True
  | .updateChallenge _ _ wasm => wasm = none
  | .removeChallenge id => fromString id ∉ n.state.challenges
  | .kickValidator hotkey _ => hotkey ∉ n.state.validators
  | .unbanValidator hotkey => hotkey.toHex ∉ n.bans.bannedValidators
  | .unbanHotkey hotkey => hotkey.toHex ∉ n.bans.bannedHotkeys
  | .unbanColdkey coldkey => coldkey ∉ n.bans.bannedColdkeys
  | .pauseSubnet _ | .triggerRecovery .pause => n.recovery.paused = true
  | .resumeSubnet | .triggerRecovery .resume =>
    n.recovery.paused = false ∧ n.recovery.currentAttempts = 0
  | .triggerRecovery .restartEvaluations | .triggerRecovery .clearJobQueue
  | .triggerRecovery .reconnectPeers => True
  | _ => False

theorem idle_of_settled (h : Settled fromString n cmd) (fts : List (Option Fault)) :
    ((n.withFaults fts).executeCommand C text fmt fromString env cmd).2.core = n.core := by
  have hu : ∀ kind key found, found.1 = false →
      ((n.withFaults fts).unban text fmt kind key found).2.core = n.core := by
    intro kind key found hfn
    unfold SubnetNode.unban
    rw [hfn]
    rfl
  have hps : n.recovery.paused = true →
      ((n.withFaults fts).manualRecovery C fmt env .pause).2.core = n.core := by
    obtain ⟨_, _, _, ⟨_, _, _, _, paused⟩, _, _⟩ := n
    rintro (rfl : paused = true)
    rfl
  have hrs : n.recovery.paused = false ∧ n.recovery.currentAttempts = 0 →
      ((n.withFaults fts).manualRecovery C fmt env .resume).2.core = n.core := by
    obtain ⟨_, _, _, ⟨_, _, attempts, _, paused⟩, _, _⟩ := n
    rintro ⟨(rfl : paused = false), (rfl : attempts = 0)⟩
    rfl
  cases cmd with
  | updateChallenge id cfg wasm =>
    obtain rfl : wasm = none := h
    simp only [SubnetNode.executeCommand, SubnetNode.updateChallenge]
    split
    · rfl
    · rfl
  | removeChallenge id =>
    simp only [SubnetNode.executeCommand, CommandExecutor.removeChallenge, SubnetNode.withFaults,
      HashMap.erase_of_lookup_none (AList.lookup_eq_none.mpr h)]
    rfl
  | kickValidator hotkey why =>
    simp only [SubnetNode.executeCommand, CommandExecutor.kickValidator, SubnetNode.withFaults,
      AList.lookup_eq_none.mpr h]
    rfl
  | unbanValidator hotkey | unbanHotkey hotkey | unbanColdkey coldkey =>
    exact hu _ _ _ (decide_eq_false h)
  | pauseSubnet why => exact hps h
  | resumeSubnet => exact hrs h
  | triggerRecovery act =>
    cases act with
    | pause => exact hps h
    | resume => exact hrs h
    | _ => first | rfl | exact absurd h id
  | _ => first | rfl | exact absurd h id

/-! ## two runs -/

def executeNext (C : Crypto) (text : JsonText) (fmt : DateFormat T)
    (fromString : String → ChallengeId) (decode : Bytes → Except String SubnetCommand)
    (n : SubnetNode F T) (input : CommandInput T) : CommandResult × SubnetNode F T :=
  n.execute C text fmt fromString decode input.env input.signed

/-- the node after these calls -/
def nodeAfter (next : SubnetNode F T → CommandInput T → CommandResult × SubnetNode F T)
    (n : SubnetNode F T) (inputs : List (CommandInput T)) : SubnetNode F T :=
  inputs.foldl (fun n input => (next n input).2) n

/-- The second list of calls is the first one with repetitions: each of them has a message that came
before, and is allowed where it comes. -/
inductive Repeated (next : SubnetNode F T → CommandInput T → CommandResult × SubnetNode F T)
    (allowed : SubnetNode F T → CommandInput T → Prop) :
    SubnetNode F T → List SignedMessage → List (CommandInput T) → List (CommandInput T) → Prop
  | nil {n seen} : Repeated next allowed n seen [] []
  | call {n seen input l l'}
    (h : Repeated next allowed (next n input).2 (input.signed :: seen) l l') :
    Repeated next allowed n seen (input :: l) (input :: l')
  | again {n seen input l l'} (hseen : input.signed ∈ seen) (hallowed : allowed n input)
    (h : Repeated next allowed (next n input).2 seen l l') :
    Repeated next allowed n seen l (input :: l')

/-- The message is not from the owner, cannot be read, or has nothing left to do. -/
def SettledCall (C : Crypto) (fromString : String → ChallengeId)
    (decode : Bytes → Except String SubnetCommand) (n : SubnetNode F T) (input : CommandInput T) :
    Prop :=
  n.verifySignature C input.signed = true → ∀ cmd, decode input.signed.message = .ok cmd →
    Settled fromString n cmd

/-- The call leaves the node as it is. -/
def Idle (next : SubnetNode F T → CommandInput T → CommandResult × SubnetNode F T)
    (n : SubnetNode F T) (input : CommandInput T) : Prop :=
  (next n input).2.core = n.core

theorem core_executeNext (inp : CommandInput T) :
    (executeNext C text fmt fromString decode n.core inp).2.core =
      (executeNext C text fmt fromString decode n inp).2.core := by
  unfold executeNext SubnetNode.execute
  rw [show n.core.verifySignature C inp.signed = n.verifySignature C inp.signed from rfl]
  split
  · split
    · rfl
    · exact (core_executeCommand _).1
  · rfl

theorem idle_of_settledCall {input : CommandInput T}
    (h : SettledCall C fromString decode n input) :
    Idle (executeNext C text fmt fromString decode) n input := by
  unfold Idle executeNext SubnetNode.execute
  split
  · split
    · rfl
    · exact idle_of_settled (h ‹_› _ ‹_›) _
  · rfl

theorem core_of_repeated {seen : List SignedMessage} {l l' : List (CommandInput T)}
    (h : Repeated (executeNext C text fmt fromString decode) (SettledCall C fromString decode)
      n seen l l') (hcr : n'.core = n.core) :
    (nodeAfter (executeNext C text fmt fromString decode) n l').core =
      (nodeAfter (executeNext C text fmt fromString decode) n' l).core := by
  induction h generalizing n' with
  | nil => exact hcr.symm
  | call h ih =>
    apply ih
    rw [← core_executeNext, hcr, core_executeNext]
  | again _ hst _ ih => exact ih (hcr.trans (idle_of_settledCall hst).symm)

theorem verified_of_changed {inp : CommandInput T}
    (h : (executeNext C text fmt fromString decode n inp).2 ≠ n) :
    inp.signed.verify C = .ok true ∧ inp.signed.signer = n.sudoKey := by
  unfold executeNext SubnetNode.execute at h
  split at h
  · exact of_decide_eq_true ‹_›
  · exact absurd rfl h

theorem sudoKey_nodeAfter (ins : List (CommandInput T)) :
    (nodeAfter (executeNext C text fmt fromString decode) n ins).sudoKey = n.sudoKey := by
  induction ins generalizing n with
  | nil => rfl
  | cons inp ins ih =>
    refine ih.trans ?_
    show (executeNext C text fmt fromString decode n inp).2.sudoKey = n.sudoKey
    unfold executeNext SubnetNode.execute
    split
    · split
      · rfl
      · exact (core_executeCommand _).2
    · rfl

/-- **An owner command works once**, as long as repetitions come where they have nothing to do.
Signatures cannot be forged: what verifies under a key was signed by its owner.  Then only messages
of the owner of the sudo key have an effect, and a run with repetitions of settled messages ends as
the run without them. -/
theorem repeats_harmless (signedBy : Hotkey → Bytes → Prop)
    (hforge : ∀ m : SignedMessage, m.verify C = .ok true → signedBy m.signer m.message)
    (n : SubnetNode F T) (l : List (CommandInput T)) :
    (∀ l₁ input l₂, l = l₁ ++ input :: l₂ →
      nodeAfter (executeNext C text fmt fromString decode) n (l₁ ++ [input]) ≠
        nodeAfter (executeNext C text fmt fromString decode) n l₁ →
      signedBy n.sudoKey input.signed.message) ∧
    ∀ l', Repeated (executeNext C text fmt fromString decode) (SettledCall C fromString decode)
        n [] l l' →
      (nodeAfter (executeNext C text fmt fromString decode) n l').outcome =
        (nodeAfter (executeNext C text fmt fromString decode) n l).outcome := by
  constructor
  · intro l₁ input l₂ _ hch
    unfold nodeAfter at hch
    rw [List.foldl_append] at hch
    obtain ⟨hvr, hsg⟩ := verified_of_changed hch
    rw [← sudoKey_nodeAfter l₁ (C := C)]
    exact hsg ▸ hforge _ hvr
  · intro l' h
    have hcr := congrArg SubnetNode.outcome (core_of_repeated h rfl)
    exact hcr

end

/-! ## a ban, its end, and the ban again -/

/-- commands by their first byte -/
def sampleDecode : Bytes → Except String SubnetCommand
  | 0 :: _ => .ok (.banValidator (.ofByte 1) "spam")
  | 1 :: _ => .ok (.unbanValidator (.ofByte 1))
  | _ => .error "unexpected end of file"

def ownerCall (byte : UInt8) : CommandInput (Fin 2) :=
  ⟨sampleEnv, [byte], Keypair.signBytes sampleCrypto ⟨.ofByte 7⟩ 0 [byte], .ofByte 7⟩

def ownerNext : SubnetNode Nat (Fin 2) → CommandInput (Fin 2) →
    CommandResult × SubnetNode Nat (Fin 2) :=
  executeNext sampleCrypto noText sampleDates noChallenge sampleDecode

/-- A ban is lifted, and the message that lifts it is sent again. -/
theorem unban_repeated :
    (nodeAfter ownerNext (sampleNode ∅) [ownerCall 0, ownerCall 1, ownerCall 1]).outcome =
      (nodeAfter ownerNext (sampleNode ∅) [ownerCall 0, ownerCall 1]).outcome := by
  have hst : SettledCall sampleCrypto noChallenge sampleDecode
      (nodeAfter ownerNext (sampleNode ∅) [ownerCall 0, ownerCall 1]) (ownerCall 1) := by
    intro _ cmd hcm
    cases hcm
    show (Hotkey.ofByte 1).toHex ∉ _
    decide +kernel
  exact (repeats_harmless (fun k m => ∃ s, sampleCrypto.verify s m k = true)
    (fun m h => ⟨m.signature, ((m.verify_ok_iff _ _).mp h).2⟩) (sampleNode ∅)
      [ownerCall 0, ownerCall 1]).2 _ (.call (.call (.again List.mem_cons_self hst .nil)))

/-- A validator is banned and the ban lifted; whoever sends the first message again bans it anew. -/
theorem banned_again :
    Repeated ownerNext (fun _ _ => True) (sampleNode ∅) [] [ownerCall 0, ownerCall 1]
        [ownerCall 0, ownerCall 1, ownerCall 0] ∧
      (Hotkey.ofByte 1).toHex ∉
        (nodeAfter ownerNext (sampleNode ∅) [ownerCall 0, ownerCall 1]).bans.bannedValidators ∧
      (Hotkey.ofByte 1).toHex ∈ (nodeAfter ownerNext (sampleNode ∅)
        [ownerCall 0, ownerCall 1, ownerCall 0]).bans.bannedValidators := by
  refine ⟨.call (.call (.again (List.mem_cons_of_mem _ List.mem_cons_self) trivial .nil)), ?_⟩
  decide +kernel

end Platform.Subnet
