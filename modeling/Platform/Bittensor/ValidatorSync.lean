import Platform.Chain.State
import Platform.Lib.Capped

/-!
# Validators from the metagraph (`crates/bittensor-integration/src/validator_sync.rs`)

`update_state` makes two passes.  The first one removes the validators that are not in the
metagraph, except the sudo key.  The second one goes through the metagraph, in the order of a hash
map: it passes over banned hotkeys, updates the validators that are there and adds the others while
there is room.  A banned validator that is in the metagraph is therefore neither removed nor
updated, and the sudo key takes a place even if it is not in the metagraph.
-/

namespace Platform.Bittensor
open Platform.Core Lib Chain HashMap AList ChainState Finset Intake

structure MetagraphValidator where
  hotkey : Hotkey
  stake : UInt64
  active : Bool
deriving DecidableEq

structure SyncResult where
  added : Nat
  removed : Nat
  updated : Nat
  skippedBanned : Nat
  total : Nat
deriving DecidableEq

def SyncResult.default : SyncResult := ⟨0, 0, 0, 0, 0⟩

section
variable {T : Type}

def isBanned (banned : Option (HashSet String)) (hotkey : Hotkey) : Bool :=
  match banned with
  | some set => decide (hotkey.toHex ∈ set)
  | none => false

def metagraphMap (btValidators : List MetagraphValidator) : HashMap Hotkey MetagraphValidator :=
  .collect (btValidators.map fun v => (v.hotkey, v))

/-- the body of the first loop -/
def removeOne (btMap : HashMap Hotkey MetagraphValidator) (acc : SyncResult × ChainState T)
    (hotkey : Hotkey) : SyncResult × ChainState T :=
  if hotkey ∉ btMap ∧ acc.2.isSudo hotkey = false then
    ({ acc.1 with removed := acc.1.removed + 1 },
      acc.2.withValidators (acc.2.validators.erase hotkey))
  else acc

/-- the body of the second loop -/
def syncOne (C : Crypto) (now : T) (banned : Option (HashSet String))
    (acc : SyncResult × ChainState T) (entry : Hotkey × MetagraphValidator) :
    SyncResult × ChainState T :=
  let (hotkey, btVal) := entry
  if isBanned banned hotkey then
    ({ acc.1 with skippedBanned := acc.1.skippedBanned + 1 }, acc.2)
  else
    match acc.2.validators.lookup hotkey with
    | some existing =>
      if existing.stake ≠ btVal.stake then
        let existing := { existing with stake := btVal.stake, isActive := btVal.active }
        ({ acc.1 with updated := acc.1.updated + 1 },
          acc.2.withValidators (acc.2.validators.insert hotkey existing))
      else acc
    | none =>
      match acc.2.addValidator C now (.new hotkey btVal.stake now) with
      | (.ok (), state) => ({ acc.1 with added := acc.1.added + 1 }, state)
      | (.error _, state) => (acc.1, state)

def updateState (C : Crypto) (now : T) (it : Iteration Hotkey) (state : ChainState T)
    (btValidators : List MetagraphValidator) (banned : Option (HashSet String)) :
    SyncResult × ChainState T :=
  let btMap := metagraphMap btValidators
  let removed := state.validators.keys.foldl (removeOne btMap) (.default, state)
  let synced := (btMap.pairsBy it).foldl (syncOne C now banned) removed
  ({ synced.1 with total := synced.2.validators.size }, synced.2)

/-! ## the first pass -/

def Stays (btMap : HashMap Hotkey MetagraphValidator) (sudoKey h : Hotkey) : Prop :=
  h ∈ btMap ∨ h = sudoKey

instance (btMap : HashMap Hotkey MetagraphValidator) (sudoKey h : Hotkey) :
    Decidable (Stays btMap sudoKey h) := inferInstanceAs (Decidable (_ ∨ _))

variable {btMap : HashMap Hotkey MetagraphValidator} {acc : SyncResult × ChainState T}
  {s : ChainState T} {h : Hotkey} {l : List Hotkey}

theorem removeOne_of_stays (hsy : Stays btMap acc.2.sudoKey h) : removeOne btMap acc h = acc := by
  apply if_neg
  intro hcn
  rcases hsy with hmem | hsd
  · exact hcn.1 hmem
  · have hfl := hcn.2
    rw [isSudo, hsd, beq_self_eq_true] at hfl
    cases hfl

theorem removeOne_of_not_stays (hnt : ¬ Stays btMap acc.2.sudoKey h) :
    removeOne btMap acc h =
      ({ acc.1 with removed := acc.1.removed + 1 },
        acc.2.withValidators (acc.2.validators.erase h)) := by
  rw [Stays, not_or] at hnt
  apply if_pos
  refine ⟨hnt.1, ?_⟩
  exact beq_false_of_ne (Ne.symm hnt.2)

/-- What the first pass leaves: everything but the validators that do not stay. -/
structure Cleared (btMap : HashMap Hotkey MetagraphValidator) (l : List Hotkey)
    (before after : SyncResult × ChainState T) : Prop where
  state : after.2 = before.2.withValidators after.2.validators
  lookup : ∀ h, after.2.validators.lookup h =
    if h ∈ l ∧ ¬ Stays btMap before.2.sudoKey h then none else before.2.validators.lookup h
  result : after.1 = { before.1 with removed := before.1.removed +
    (l.filter fun h => ¬ Stays btMap before.2.sudoKey h).length }

theorem cleared_foldl (btMap : HashMap Hotkey MetagraphValidator) (l : List Hotkey)
    (acc : SyncResult × ChainState T) : Cleared btMap l acc (l.foldl (removeOne btMap) acc) := by
  induction l generalizing acc with
  | nil => exact ⟨rfl, by simp, rfl⟩
  | cons h l ih =>
    rw [List.foldl_cons]
    obtain ⟨hsa, hlk, hrs⟩ := ih (removeOne btMap acc h)
    by_cases hsy : Stays btMap acc.2.sudoKey h
    · rw [removeOne_of_stays hsy] at hsa hlk hrs ⊢
      refine ⟨hsa, ?_, ?_⟩
      · intro h'
        rw [hlk h']
        apply if_congr _ rfl rfl
        rw [List.mem_cons]
        constructor
        · intro hc
          exact ⟨.inr hc.1, hc.2⟩
        · intro hc
          rcases hc.1 with rfl | hmem
          · exact absurd hsy hc.2
          · exact ⟨hmem, hc.2⟩
      · rw [hrs, List.filter_cons_of_neg (by simp [hsy])]
    · rw [removeOne_of_not_stays hsy] at hsa hlk hrs ⊢
      refine ⟨hsa, ?_, ?_⟩
      · intro h'
        rw [hlk h']
        show (if h' ∈ l ∧ ¬ Stays btMap acc.2.sudoKey h' then none
          else (acc.2.validators.erase h).lookup h') = _
        by_cases heq : h' = h
        · subst heq
          rw [lookup_erase, ite_self, if_pos ⟨List.mem_cons_self, hsy⟩]
        · simp [heq]
      · rw [hrs, List.filter_cons_of_pos (by simp [hsy])]
        show ({ acc.1 with removed := acc.1.removed + 1 + _ } : SyncResult) = _
        rw [Nat.add_assoc, Nat.add_comm 1]
        rfl

/-! ## the second pass -/

def intake (now : T) (config : NetworkConfig) (banned : Option (HashSet String)) :
    Intake Hotkey (ValidatorInfo T) MetagraphValidator where
  cap := config.maxValidators.toNat
  skip := isBanned banned
  refresh v info :=
    if info.stake ≠ v.stake then some { info with stake := v.stake, isActive := v.active }
    else none
  admits _ v := decide (config.minStake ≤ v.stake)
  fresh h v := .new h v.stake now

def changes (banned : Option (HashSet String)) (vs : HashMap Hotkey (ValidatorInfo T))
    (p : Hotkey × MetagraphValidator) : Bool :=
  !isBanned banned p.1 && (vs.lookup p.1).any fun info => decide (info.stake ≠ p.2.stake)

variable {C : Crypto} {now : T} {banned : Option (HashSet String)}
  {p : Hotkey × MetagraphValidator} {ps : List (Hotkey × MetagraphValidator)}

variable {f : Intake Hotkey (ValidatorInfo T) MetagraphValidator}

theorem syncOne_eq (hf : intake now acc.2.config banned = f) (p : Hotkey × MetagraphValidator) :
    syncOne C now banned acc p =
      ({ acc.1 with
          added := acc.1.added +
            if f.isNew acc.2.validators p = true ∧ acc.2.validators.size < f.cap then 1 else 0
          updated := acc.1.updated + if changes banned acc.2.validators p then 1 else 0
          skippedBanned := acc.1.skippedBanned + if isBanned banned p.1 then 1 else 0 },
        if f.isNew acc.2.validators p = true ∧ acc.2.validators.size < f.cap then
          (acc.2.withValidators (f.one acc.2.validators p)).updateHash C now
        else acc.2.withValidators (f.one acc.2.validators p)) := by
  subst hf
  obtain ⟨h, v⟩ := p
  unfold syncOne one isNew changes
  dsimp only
  rw [show (intake now acc.2.config banned).skip h = isBanned banned h from rfl]
  cases hbn : isBanned banned h with
  | true => simp [withValidators]
  | false =>
    cases hlk : acc.2.validators.lookup h with
    | some old =>
      have hm : h ∈ acc.2.validators := mem_of_lookup hlk
      by_cases hstake : old.stake = v.stake
      · simp [intake, hstake, hm, withValidators]
      · simp [intake, hstake, hm]
    | none =>
      have hm : h ∉ acc.2.validators := lookup_eq_none.mp hlk
      unfold addValidator
      by_cases hrm : acc.2.config.maxValidators.toNat ≤ acc.2.validators.size
      · simp [intake, hrm, hm, withValidators, Nat.not_lt.mpr hrm]
      · by_cases hstake : v.stake < acc.2.config.minStake
        · have hnt : ¬ acc.2.config.minStake ≤ v.stake := UInt64.not_le.mpr hstake
          simp [intake, hrm, hm, withValidators, ValidatorInfo.new, hstake, hnt]
        · have hle : acc.2.config.minStake ≤ v.stake := UInt64.not_lt.mp hstake
          simp [intake, hrm, hm, ValidatorInfo.new, hstake, hle, Nat.not_le.mp hrm]

/-- What the second pass makes of a state. -/
structure Synced (C : Crypto) (now : T) (banned : Option (HashSet String))
    (f : Intake Hotkey (ValidatorInfo T) MetagraphValidator)
    (ps : List (Hotkey × MetagraphValidator)) (before after : SyncResult × ChainState T) :
    Prop where
  state : after.2 =
    if f.joined before.2.validators ps = [] then
      before.2.withValidators (f.all before.2.validators ps)
    else (before.2.withValidators (f.all before.2.validators ps)).updateHash C now
  result : after.1 =
    { before.1 with
      added := before.1.added + (f.joined before.2.validators ps).length
      updated := before.1.updated + (ps.filter (changes banned before.2.validators)).length
      skippedBanned := before.1.skippedBanned + (ps.filter fun p => isBanned banned p.1).length }

theorem length_filter_cons {α : Type} (q : α → Bool) (a : α) (l : List α) :
    ((a :: l).filter q).length = (if q a then 1 else 0) + (l.filter q).length := by
  cases h : q a with
  | true => simp [h, Nat.add_comm]
  | false => simp [h]

theorem withValidators_updateHash (s : ChainState T) {vs vs' : HashMap Hotkey (ValidatorInfo T)}
    (hsz : vs'.size = vs.size) :
    ((s.withValidators vs).updateHash C now).withValidators vs' =
      (s.withValidators vs').updateHash C now := by
  have hip : (s.withValidators vs).hashInput = (s.withValidators vs').hashInput := by
    unfold hashInput
    simp only [validators_withValidators, hsz]
    rfl
  rw [updateHash, hip]
  rfl

theorem synced_foldl (hnd : (ps.map Prod.fst).Nodup) (hf : intake now acc.2.config banned = f) :
    Synced C now banned f ps acc (ps.foldl (syncOne C now banned) acc) := by
  induction ps generalizing acc with
  | nil =>
    have hn : f.joined acc.2.validators [] = [] := List.take_nil
    refine ⟨?_, ?_⟩
    · rw [if_pos hn]
      rfl
    · rw [hn]
      rfl
  | cons p ps ih =>
    have hr := List.nodup_cons.mp hnd
    have hon := syncOne_eq (C := C) hf p
    have hvl : (syncOne C now banned acc p).2.validators = f.one acc.2.validators p := by
      rw [hon]
      split <;> rfl
    have hik : intake now (syncOne C now banned acc p).2.config banned = f := by
      rw [← hf, hon]
      split <;> rfl
    have hch : ps.filter (changes banned (f.one acc.2.validators p)) =
        ps.filter (changes banned acc.2.validators) := by
      apply List.filter_congr
      intro q hq
      rw [changes, changes, lookup_one_of_ne]
      intro heq
      exact hr.1 (heq ▸ List.mem_map_of_mem hq)
    obtain ⟨hsa, hrs⟩ := ih hr.2 hik
    have hj := joined_one (f := f) (m := acc.2.validators) hnd
    have ha : f.all acc.2.validators (p :: ps) = f.all (f.one acc.2.validators p) ps := rfl
    rw [hvl, hch] at hrs
    rw [hvl] at hsa
    rw [List.foldl_cons]
    by_cases hjn : f.isNew acc.2.validators p = true ∧ acc.2.validators.size < f.cap
    · rw [if_pos hjn] at hj
      rw [if_pos hjn] at hon
      refine ⟨?_, ?_⟩
      · rw [hsa, hj, hon]
        split
        · next hn =>
          apply withValidators_updateHash
          rw [Intake.size_all hr.2, hn]
          rfl
        · rfl
      · rw [hrs, hj, length_filter_cons, length_filter_cons, hon, List.length_cons]
        simp only [Nat.add_assoc, Nat.add_comm 1]
    · rw [if_neg hjn] at hj
      rw [if_neg hjn, if_neg hjn] at hon
      refine ⟨?_, ?_⟩
      · rw [hsa, hj, hon]
        rfl
      · rw [hrs, hj, length_filter_cons, length_filter_cons, hon]
        simp only [Nat.add_assoc, Nat.add_zero]

/-! ## both passes -/

/-- the state after the first pass -/
def cleared (s : ChainState T) (btMap : HashMap Hotkey MetagraphValidator) :
    SyncResult × ChainState T := s.validators.keys.foldl (removeOne btMap) (.default, s)

def keeping (s : ChainState T) (btMap : HashMap Hotkey MetagraphValidator) : Finset Hotkey :=
  s.validators.keySet.filter (Stays btMap s.sudoKey)

def wanted (btMap : HashMap Hotkey MetagraphValidator) (banned : Option (HashSet String)) :
    Finset Hotkey := btMap.keySet.filter fun h => isBanned banned h = false

/-- those of them that are not validators yet -/
def missing (s : ChainState T) (btMap : HashMap Hotkey MetagraphValidator)
    (banned : Option (HashSet String)) : Finset Hotkey := wanted btMap banned \ s.validators.keySet

theorem mem_wanted : h ∈ wanted btMap banned ↔ h ∈ btMap ∧ isBanned banned h = false := by
  rw [wanted, mem_filter, mem_keySet]

theorem mem_missing : h ∈ missing s btMap banned ↔
    (h ∈ btMap ∧ isBanned banned h = false) ∧ h ∉ s.validators := by
  rw [missing, mem_sdiff, mem_wanted, mem_keySet]

theorem mem_cleared : h ∈ (cleared s btMap).2.validators ↔
    h ∈ s.validators ∧ Stays btMap s.sudoKey h := by
  have hlk := (cleared_foldl btMap s.validators.keys (.default, s)).lookup h
  rw [← lookup_isSome, cleared, hlk]
  by_cases hsy : Stays btMap s.sudoKey h
  · rw [if_neg fun hc => hc.2 hsy, lookup_isSome]
    exact ⟨fun hm => ⟨hm, hsy⟩, fun hc => hc.1⟩
  · by_cases hm : h ∈ s.validators
    · rw [if_pos ⟨mem_keys.mp hm, hsy⟩]
      simp [hsy]
    · rw [lookup_eq_none.mpr hm]
      simp [hm]

theorem size_cleared : (cleared s btMap).2.validators.size = (keeping s btMap).card := by
  rw [← card_keySet]
  apply congrArg card
  ext h
  rw [mem_keySet, mem_cleared, keeping, mem_filter, mem_keySet]

theorem config_cleared : (cleared s btMap).2.config = s.config := by
  rw [cleared, (cleared_foldl btMap s.validators.keys (.default, s)).state]
  rfl

variable {it it' : Iteration Hotkey} {btValidators : List MetagraphValidator}

theorem synced_cleared :
    Synced C now banned (intake now s.config banned) (btMap.pairsBy it) (cleared s btMap)
      ((btMap.pairsBy it).foldl (syncOne C now banned) (cleared s btMap)) :=
  synced_foldl (nodup_pairsBy it) (by rw [config_cleared])

theorem validators_updateState :
    (updateState C now it s btValidators banned).2.validators =
      (intake now s.config banned).all (cleared s (metagraphMap btValidators)).2.validators
        ((metagraphMap btValidators).pairsBy it) := by
  show ((_ : List _).foldl (syncOne C now banned) (cleared s _)).2.validators = _
  rw [synced_cleared.state]
  split <;> rfl

/-- the new hotkeys for which there is room -/
def joined (now : T) (it : Iteration Hotkey) (s : ChainState T)
    (btValidators : List MetagraphValidator) (banned : Option (HashSet String)) : List Hotkey :=
  (intake now s.config banned).joined (cleared s (metagraphMap btValidators)).2.validators
    ((metagraphMap btValidators).pairsBy it)

theorem added_updateState : (updateState C now it s btValidators banned).1.added =
    (joined now it s btValidators banned).length := by
  show (List.foldl _ (cleared s _) _).1.added = _
  rw [synced_cleared.result, cleared,
    (cleared_foldl (metagraphMap btValidators) s.validators.keys (.default, s)).result]
  exact Nat.zero_add _

variable (s C now banned it btValidators) in
theorem size_updateState_eq :
    (updateState C now it s btValidators banned).2.validators.size +
        (updateState C now it s btValidators banned).1.removed =
      s.validators.size + (updateState C now it s btValidators banned).1.added := by
  have hk : (keeping s (metagraphMap btValidators)).card +
      (updateState C now it s btValidators banned).1.removed = s.validators.size := by
    show _ + (List.foldl _ (cleared s _) _).1.removed = _
    rw [synced_cleared.result, cleared,
      (cleared_foldl (metagraphMap btValidators) s.validators.keys (.default, s)).result]
    show _ + (0 + _) = _
    rw [Nat.zero_add, ← card_keySet,
      ← List.toFinset_card_of_nodup (s.validators.keys_nodup.filter _), List.toFinset_filter]
    simp only [decide_eq_true_eq]
    exact card_filter_add_card_filter_not _
  rw [validators_updateState, Intake.size_all (nodup_pairsBy it), size_cleared, added_updateState]
  show (keeping s (metagraphMap btValidators)).card + (joined now it s btValidators banned).length +
    _ = _
  omega

theorem size_updateState_le :
    (updateState C now it s btValidators banned).2.validators.size ≤
      max s.validators.size s.config.maxValidators.toNat := by
  rw [validators_updateState, Intake.size_all (nodup_pairsBy it), Intake.joined, List.length_take]
  have hle : (cleared s (metagraphMap btValidators)).2.validators.size ≤ s.validators.size := by
    rw [size_cleared, ← card_keySet]
    exact card_filter_le _ _
  have hcp : (intake now s.config banned).cap = s.config.maxValidators.toNat := rfl
  omega

variable (s C now banned it btValidators) in
theorem state_updateState :
    (updateState C now it s btValidators banned).2 =
      if (updateState C now it s btValidators banned).1.added = 0 then
        s.withValidators (updateState C now it s btValidators banned).2.validators
      else
        (s.withValidators (updateState C now it s btValidators banned).2.validators).updateHash
          C now := by
  have hcl : (cleared s (metagraphMap btValidators)).2 =
      s.withValidators (cleared s (metagraphMap btValidators)).2.validators :=
    (cleared_foldl (metagraphMap btValidators) s.validators.keys (.default, s)).state
  rw [added_updateState, validators_updateState]
  show (List.foldl _ (cleared s _) _).2 = _
  rw [synced_cleared.state]
  by_cases hn : joined now it s btValidators banned = []
  · rw [if_pos (List.length_eq_zero_iff.mpr hn)]
    refine (if_pos hn).trans ?_
    rw [hcl]
    rfl
  · rw [if_neg fun h => hn (List.length_eq_zero_iff.mp h)]
    refine (if_neg hn).trans ?_
    rw [hcl]
    rfl

/-- Those who join are missing and have the stake. -/
theorem mem_joining_iff_staked (now : T) (it : Iteration Hotkey) :
    h ∈ (intake now s.config banned).joining (cleared s btMap).2.validators (btMap.pairsBy it) ↔
      h ∈ missing s btMap banned ∧ ∃ v, btMap.lookup h = some v ∧ s.config.minStake ≤ v.stake := by
  rw [mem_joining, mem_missing]
  constructor
  · intro hn
    obtain ⟨v, hmm, hn⟩ := hn
    obtain ⟨hsk, ho, hst⟩ := isNew_iff.mp hn
    have hv := mem_pairsBy.mp hmm
    have hin := mem_of_lookup hv
    exact ⟨⟨⟨hin, hsk⟩, fun hs => ho (mem_cleared.mpr ⟨hs, .inl hin⟩)⟩, v, hv,
      of_decide_eq_true hst⟩
  · intro hm
    obtain ⟨⟨⟨-, hsk⟩, ho⟩, v, hv, hst⟩ := hm
    refine ⟨v, mem_pairsBy.mpr hv, isNew_iff.mpr ⟨hsk, ?_, decide_eq_true hst⟩⟩
    intro hcl
    exact ho (mem_cleared.mp hcl).1

variable (s C now banned it btValidators) in
theorem removed_updateState_eq_zero :
    (updateState C now it s btValidators banned).1.removed = 0 ↔
      ∀ h ∈ s.validators.keys, Stays (metagraphMap btValidators) s.sudoKey h := by
  show (List.foldl _ (cleared s _) _).1.removed = 0 ↔ _
  rw [synced_cleared.result, cleared,
    (cleared_foldl (metagraphMap btValidators) s.validators.keys (.default, s)).result]
  show 0 + _ = 0 ↔ _
  rw [Nat.zero_add, List.length_eq_zero_iff, List.filter_eq_nil_iff]
  simp only [decide_eq_true_eq, not_not]

variable (s C now banned it btValidators) in
theorem added_updateState_pos :
    0 < (updateState C now it s btValidators banned).1.added ↔
      (keeping s (metagraphMap btValidators)).card < s.config.maxValidators.toNat ∧
        ∃ h ∈ missing s (metagraphMap btValidators) banned, ∃ v,
          (metagraphMap btValidators).lookup h = some v ∧ s.config.minStake ≤ v.stake := by
  rw [added_updateState, joined, Intake.joined, List.length_take, size_cleared]
  show 0 < min (s.config.maxValidators.toNat - _) _ ↔ _
  rw [lt_min_iff, Nat.sub_pos_iff_lt, List.length_pos_iff_exists_mem]
  simp only [mem_joining_iff_staked]

section
variable (hst : ∀ v ∈ btValidators, s.config.minStake ≤ v.stake)
include hst

theorem mem_joining_iff (now : T) (it : Iteration Hotkey) :
    h ∈ (intake now s.config banned).joining (cleared s (metagraphMap btValidators)).2.validators
        ((metagraphMap btValidators).pairsBy it) ↔
      h ∈ missing s (metagraphMap btValidators) banned := by
  rw [mem_joining_iff_staked]
  refine ⟨And.left, fun hm => ⟨hm, ?_⟩⟩
  obtain ⟨v, hv⟩ := Option.isSome_iff_exists.mp (lookup_isSome.mpr (mem_missing.mp hm).1.1)
  obtain ⟨v', hv', heq⟩ := List.mem_map.mp (mem_of_lookup_collect hv)
  cases heq
  exact ⟨v, hv, hst v hv'⟩

theorem length_joining (now : T) (it : Iteration Hotkey) :
    ((intake now s.config banned).joining (cleared s (metagraphMap btValidators)).2.validators
        ((metagraphMap btValidators).pairsBy it)).length =
      (missing s (metagraphMap btValidators) banned).card := by
  rw [← List.toFinset_card_of_nodup (nodup_joining (nodup_pairsBy it))]
  apply congrArg card
  ext h
  rw [List.mem_toFinset, mem_joining_iff hst]

end

/-! ## the unbanned metagraph -/

structure SyncExact (s : ChainState T) (btMap : HashMap Hotkey MetagraphValidator)
    (banned : Option (HashSet String)) (s' : ChainState T) : Prop where
  sound : ∀ h ∈ s'.validators, h ≠ s.sudoKey → h ∈ btMap ∧ isBanned banned h = false
  complete : (wanted btMap banned).card ≤ s.config.maxValidators.toNat →
    ∀ h ∈ wanted btMap banned, h ≠ s.sudoKey → h ∈ s'.validators
  stakes : ∀ h info, s'.validators.lookup h = some info → h ≠ s.sudoKey →
    ∃ v, btMap.lookup h = some v ∧ info.stake = v.stake
  unbanned : ∀ h ∈ s'.validators, isBanned banned h = false

def NoneBanned (s : ChainState T) (btMap : HashMap Hotkey MetagraphValidator)
    (banned : Option (HashSet String)) : Prop :=
  ∀ h ∈ s.validators.keys, Stays btMap s.sudoKey h → isBanned banned h = false

instance : Decidable (NoneBanned s btMap banned) := inferInstanceAs (Decidable (∀ h ∈ _, _))

/-- There is room for all that are missing beside those that stay; or for none, and then only the
sudo key is missing or the metagraph is too large anyway. -/
def Room (s : ChainState T) (btMap : HashMap Hotkey MetagraphValidator)
    (banned : Option (HashSet String)) : Prop :=
  (keeping s btMap).card + (missing s btMap banned).card ≤ s.config.maxValidators.toNat ∨
    (s.config.maxValidators.toNat ≤ (keeping s btMap).card ∧
      (missing s btMap banned ⊆ {s.sudoKey} ∨
        s.config.maxValidators.toNat < (wanted btMap banned).card))

instance : Decidable (Room s btMap banned) := inferInstanceAs (Decidable (_ ∨ _))

theorem stake_updateState {info : ValidatorInfo T} {v : MetagraphValidator}
    (hif : (updateState C now it s btValidators banned).2.validators.lookup h = some info)
    (hv : (metagraphMap btValidators).lookup h = some v) (hbn : isBanned banned h = false) :
    info.stake = v.stake := by
  have hm : (h, v) ∈ (metagraphMap btValidators).pairsBy it := mem_pairsBy.mpr hv
  have hnd := nodup_pairsBy (m := metagraphMap btValidators) it
  rw [validators_updateState] at hif
  cases ho : (cleared s (metagraphMap btValidators)).2.validators.lookup h with
  | none =>
    rw [lookup_all_new hnd hm hbn ho (mem_of_lookup hif)] at hif
    obtain rfl := Option.some_inj.mp hif
    rfl
  | some old =>
    rw [lookup_all_old hnd hm hbn ho] at hif
    obtain rfl := Option.some_inj.mp hif
    by_cases hs : old.stake = v.stake
    · simp [intake, hs]
    · simp [intake, hs]

/-- The order of iteration shows neither in the counts nor in the state. -/
def OrderFree (C : Crypto) (now : T) (s : ChainState T) (btValidators : List MetagraphValidator)
    (banned : Option (HashSet String)) : Prop :=
  ∀ it it', (updateState C now it s btValidators banned).1 =
      (updateState C now it' s btValidators banned).1 ∧
    (updateState C now it s btValidators banned).2 =
      (updateState C now it' s btValidators banned).2.withValidators
        (updateState C now it s btValidators banned).2.validators ∧
    ∀ h, (updateState C now it s btValidators banned).2.validators.lookup h =
      (updateState C now it' s btValidators banned).2.validators.lookup h

theorem length_joined_order (it it' : Iteration Hotkey) :
    ((intake now s.config banned).joined (cleared s btMap).2.validators (btMap.pairsBy it)).length =
      ((intake now s.config banned).joined (cleared s btMap).2.validators
        (btMap.pairsBy it')).length :=
  length_joined_perm (pairsBy_perm it it')

theorem size_updateState (it it' : Iteration Hotkey) :
    (updateState C now it s btValidators banned).2.validators.size =
      (updateState C now it' s btValidators banned).2.validators.size := by
  rw [validators_updateState, validators_updateState, Intake.size_all (nodup_pairsBy _),
    Intake.size_all (nodup_pairsBy _), length_joined_order it it']

theorem result_updateState (it it' : Iteration Hotkey) :
    (updateState C now it s btValidators banned).1 =
      (updateState C now it' s btValidators banned).1 := by
  have hpr := pairsBy_perm (m := metagraphMap btValidators) it it'
  have hrs : (((metagraphMap btValidators).pairsBy it).foldl (syncOne C now banned)
        (cleared s (metagraphMap btValidators))).1 =
      (((metagraphMap btValidators).pairsBy it').foldl (syncOne C now banned)
        (cleared s (metagraphMap btValidators))).1 := by
    rw [synced_cleared.result, synced_cleared.result, length_joined_order it it',
      (hpr.filter _).length_eq, (hpr.filter _).length_eq]
  exact congrArg₂ (fun r n => ({ r with total := n } : SyncResult)) hrs (size_updateState it it')

theorem rest_updateState (it it' : Iteration Hotkey) :
    (updateState C now it s btValidators banned).2 =
      (updateState C now it' s btValidators banned).2.withValidators
        (updateState C now it s btValidators banned).2.validators := by
  have hsa := state_updateState s C now banned it btValidators
  have hsa' := state_updateState s C now banned it' btValidators
  rw [result_updateState it it'] at hsa
  by_cases hn : (updateState C now it' s btValidators banned).1.added = 0
  · rw [if_pos hn] at hsa hsa'
    rw [hsa']
    exact hsa
  · rw [if_neg hn] at hsa hsa'
    rw [hsa', withValidators_updateHash _ (size_updateState it it')]
    exact hsa

variable (hstake : ∀ v ∈ btValidators, s.config.minStake ≤ v.stake)

include hstake in
theorem orderFree_iff :
    OrderFree C now s btValidators banned ↔
      (keeping s (metagraphMap btValidators)).card +
          (missing s (metagraphMap btValidators) banned).card ≤ s.config.maxValidators.toNat ∨
        s.config.maxValidators.toNat ≤ (keeping s (metagraphMap btValidators)).card := by
  rw [← size_cleared, ← length_joining hstake now .asListed]
  refine Iff.trans ⟨?_, ?_⟩ (order_iff (f := intake now s.config banned) .asListed)
  · intro hfr it it' h
    have hs := (hfr it it').2.2 h
    rw [validators_updateState, validators_updateState] at hs
    exact hs
  · intro hs it it'
    refine ⟨result_updateState it it', rest_updateState it it', ?_⟩
    intro h
    rw [validators_updateState, validators_updateState]
    exact hs it it' h

theorem mem_of_stays (hm : h ∈ s.validators)
    (hsy : Stays (metagraphMap btValidators) s.sudoKey h) :
    h ∈ (updateState C now it s btValidators banned).2.validators := by
  rw [validators_updateState, mem_all (nodup_pairsBy it)]
  exact .inl (mem_cleared.mpr ⟨hm, hsy⟩)

include hstake in
theorem stays_or_missing (hm : h ∈ (updateState C now it s btValidators banned).2.validators) :
    (h ∈ s.validators ∧ Stays (metagraphMap btValidators) s.sudoKey h) ∨
      h ∈ missing s (metagraphMap btValidators) banned := by
  rw [validators_updateState, mem_all (nodup_pairsBy it), mem_cleared] at hm
  rcases hm with hold | hj
  · exact .inl hold
  · exact .inr ((mem_joining_iff hstake now it).mp (List.mem_of_mem_take hj))

include hstake in
theorem syncExact_of_room (hn : NoneBanned s (metagraphMap btValidators) banned)
    (hrm : Room s (metagraphMap btValidators) banned) :
    SyncExact s (metagraphMap btValidators) banned
      (updateState C now it s btValidators banned).2 := by
  have hu : ∀ h ∈ (updateState C now it s btValidators banned).2.validators,
      isBanned banned h = false := by
    intro h hmm
    rcases stays_or_missing hstake hmm with ho | hm
    · exact hn h (mem_keys.mp ho.1) ho.2
    · exact (mem_missing.mp hm).1.2
  have hsn : ∀ h ∈ (updateState C now it s btValidators banned).2.validators, h ≠ s.sudoKey →
      h ∈ metagraphMap btValidators := by
    intro h hmm hsd
    rcases stays_or_missing hstake hmm with ho | hm
    · exact ho.2.resolve_right hsd
    · exact (mem_missing.mp hm).1.1
  refine ⟨?_, ?_, ?_, hu⟩
  · intro h hmm hsd
    exact ⟨hsn h hmm hsd, hu h hmm⟩
  · intro hfw h hwn hsd
    have hin := mem_wanted.mp hwn
    by_cases ho : h ∈ s.validators
    · exact mem_of_stays ho (.inl hin.1)
    · have hm : h ∈ missing s (metagraphMap btValidators) banned := mem_missing.mpr ⟨hin, ho⟩
      rcases hrm with hft | ⟨-, hon | hmn⟩
      · rw [validators_updateState, mem_all (nodup_pairsBy it), joined_of_fits,
          mem_joining_iff hstake]
        · exact .inr hm
        · rw [length_joining hstake, size_cleared]
          exact hft
      · exact absurd (mem_singleton.mp (hon hm)) hsd
      · omega
  · intro h info hif hsd
    have hmm := mem_of_lookup hif
    obtain ⟨v, hv⟩ := Option.isSome_iff_exists.mp (lookup_isSome.mpr (hsn h hmm hsd))
    exact ⟨v, hv, stake_updateState hif hv (hu h hmm)⟩

/-- **Validator sync yields the unbanned metagraph**, in every order of iteration and with one
result for all orders, if and only if no validator that stays is banned and there is room for all
that are missing.  It fails with a single banned validator that is still registered. -/
theorem sync_exact_iff (C : Crypto) (now : T) (s : ChainState T)
    (btValidators : List MetagraphValidator) (banned : Option (HashSet String))
    (hstake : ∀ v ∈ btValidators, s.config.minStake ≤ v.stake) :
    ((∀ it, SyncExact s (metagraphMap btValidators) banned
        (updateState C now it s btValidators banned).2) ∧
      OrderFree C now s btValidators banned) ↔
    NoneBanned s (metagraphMap btValidators) banned ∧
      Room s (metagraphMap btValidators) banned := by
  rw [orderFree_iff hstake]
  constructor
  · intro h
    obtain ⟨hex, hft | hfl⟩ := h
    all_goals
      have hn : NoneBanned s (metagraphMap btValidators) banned := fun h hmm hsy =>
        (hex .asListed).unbanned h (mem_of_stays (mem_keys.mpr hmm) hsy)
    · exact ⟨hn, .inl hft⟩
    · refine ⟨hn, .inr ⟨hfl, ?_⟩⟩
      by_cases hmn : s.config.maxValidators.toNat < (wanted (metagraphMap btValidators) banned).card
      · exact .inr hmn
      · left
        intro h hm
        rw [mem_singleton]
        by_contra hsd
        have hin := mem_missing.mp hm
        have hmm := (hex .asListed).complete (Nat.not_lt.mp hmn) h (mem_wanted.mpr hin.1) hsd
        rw [validators_updateState, mem_all (nodup_pairsBy _), mem_cleared,
          joined_of_full (by rw [size_cleared]; exact hfl)] at hmm
        rcases hmm with hold | hn
        · exact hin.2 hold.1
        · cases hn
  · intro h
    refine ⟨fun it => syncExact_of_room hstake h.1 h.2, ?_⟩
    rcases h.2 with hft | hfl
    · exact .inl hft
    · exact .inr hfl.1

end

/-- the sudo key `7` and the given validators, with the stake `1000000000` each -/
def sampleChain (maxValidators : UInt64) (hotkeys : List Hotkey) : ChainState Unit :=
  (new sampleCrypto (.ofByte 7)
    { NetworkConfig.default with maxValidators := maxValidators } ()).withValidators
      (collect (hotkeys.map fun h => (h, .new h 1000000000 ())))

/-- validators `1` and `2`, while `1` and `3` are registered -/
theorem sync_exact_two :
    (∀ it, SyncExact (sampleChain 64 [.ofByte 1, .ofByte 2])
        (metagraphMap [⟨.ofByte 1, 2000000000, true⟩, ⟨.ofByte 3, 1000000000, true⟩]) none
        (updateState sampleCrypto () it (sampleChain 64 [.ofByte 1, .ofByte 2])
          [⟨.ofByte 1, 2000000000, true⟩, ⟨.ofByte 3, 1000000000, true⟩] none).2) ∧
      OrderFree sampleCrypto () (sampleChain 64 [.ofByte 1, .ofByte 2])
        [⟨.ofByte 1, 2000000000, true⟩, ⟨.ofByte 3, 1000000000, true⟩] none :=
  (sync_exact_iff sampleCrypto () (sampleChain 64 [.ofByte 1, .ofByte 2]) _ none
    (by decide)).mpr ⟨by decide, by decide⟩

/-- A banned validator that is registered stays.  And where one validator is allowed, the sudo key
keeps the registered one out. -/
theorem banned_validator_stays :
    ¬ SyncExact (sampleChain 64 [.ofByte 1]) (metagraphMap [⟨.ofByte 1, 1000000000, true⟩])
        (some (collect [((Hotkey.ofByte 1).toHex, ())]))
        (updateState sampleCrypto () .asListed (sampleChain 64 [.ofByte 1])
          [⟨.ofByte 1, 1000000000, true⟩]
          (some (collect [((Hotkey.ofByte 1).toHex, ())]))).2 ∧
      ¬ SyncExact (sampleChain 1 [.ofByte 7]) (metagraphMap [⟨.ofByte 1, 1000000000, true⟩]) none
        (updateState sampleCrypto () .asListed (sampleChain 1 [.ofByte 7])
          [⟨.ofByte 1, 1000000000, true⟩] none).2 := by
  refine ⟨?_, ?_⟩
  · intro hex
    have hm := hex.unbanned (.ofByte 1) (mem_of_stays (by decide) (.inl (by decide)))
    revert hm
    decide +kernel
  · intro hex
    have hm := hex.complete (by decide) (.ofByte 1) (by decide) (by decide)
    revert hm
    decide

end Platform.Bittensor
