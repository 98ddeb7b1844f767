import Platform.Chain.State
import Platform.Lib.Serde

/-!
# Commands of the subnet owner (`crates/subnet-manager/src/commands.rs`)

The three commands that take something out of the chain state.  They write to the fields of the
state themselves and do not hash it again, unlike the operations of `ChainState`.

`fromString` stands for `ChallengeId::from_string`, which hashes a text that is no UUID.  The result
of saving the ban list to its file is ignored, so the file is left out.
-/

namespace Platform.Subnet
open Platform.Core Lib Chain

structure CommandResult where
  success : Bool
  message : String
  data : Option Json

namespace CommandResult

def ok (message : String) : CommandResult := ⟨true, message, none⟩

def error (message : String) : CommandResult := ⟨false, message, none⟩

end CommandResult

structure BanEntry (T : Type) where
  reason : String
  bannedAt : T
  bannedBy : String

/-- `BanList`, under the hex texts of the keys -/
structure BanList (T : Type) where
  bannedValidators : HashMap String (BanEntry T)
  bannedHotkeys : HashMap String (BanEntry T)
  bannedColdkeys : HashMap String (BanEntry T)

def BanList.new {T : Type} : BanList T := ⟨∅, ∅, ∅⟩

def BanList.banValidator {T : Type} (now : T) (bans : BanList T) (hotkey : Hotkey)
    (reason bannedBy : String) : BanList T :=
  { bans with
    bannedValidators := bans.bannedValidators.insert hotkey.toHex ⟨reason, now, bannedBy⟩ }

structure CommandExecutor (T : Type) where
  sudoKey : Hotkey
  state : ChainState T
  bans : BanList T

namespace CommandExecutor
variable {T : Type}

def removeChallenge (fromString : String → ChallengeId) (e : CommandExecutor T)
    (challengeId : String) : CommandResult × CommandExecutor T :=
  (.ok ("Challenge removed: " ++ challengeId),
    { e with state :=
      { e.state with challenges := e.state.challenges.erase (fromString challengeId) } })

def kickValidator (e : CommandExecutor T) (hotkey : Hotkey) :
    CommandResult × CommandExecutor T :=
  match e.state.validators.lookup hotkey with
  | some _ =>
    (.ok ("Validator kicked: " ++ hotkey.display ++
        " (will rejoin on next sync if still registered)"),
      { e with state := e.state.withValidators (e.state.validators.erase hotkey) })
  | none => (.error ("Validator not found: " ++ hotkey.display), e)

def banValidator (now : T) (e : CommandExecutor T) (hotkey : Hotkey) (reason : String) :
    CommandResult × CommandExecutor T :=
  (.ok ("Validator banned permanently: " ++ hotkey.display),
    { e with
      bans := e.bans.banValidator now hotkey reason e.sudoKey.toHex
      state := e.state.withValidators (e.state.validators.erase hotkey) })

end CommandExecutor

end Platform.Subnet
