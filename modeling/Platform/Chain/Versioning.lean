import Platform.Chain.Types

/-!
# Loading a chain state of unknown version (`crates/core/src/state_versioning.rs`)

`deserializeStateSmart` tries four layouts in turn.  The first one, a version header with a byte
vector, is tried on every input, and once the bytes read as such a header its result is final.

A state without a header starts with its block height and its epoch.  Read as a header, the low
half of the height is the version, and the high half of the height with the low half of the epoch is
the length of the vector (`misreadLength`).  When that length is there, the state is lost
(`not_load_of_looksVersioned`); otherwise the header fails to read and the other layouts are tried.
-/

namespace Platform.Chain
open Platform.Core Lib BinCodec Layout List

def currentStateVersion : UInt32 := 3
def minSupportedVersion : UInt32 := 1

structure VersionedState where
  version : UInt32
  data : Bytes
deriving DecidableEq

structure ValidatorInfoLegacy (T : Type) where
  hotkey : Hotkey
  stake : Stake
  isActive : Bool
  lastSeen : T
  peerId : Option String
deriving DecidableEq

def ValidatorInfoLegacy.migrate {T : Type} (v : ValidatorInfoLegacy T) : ValidatorInfo T :=
  ⟨v.hotkey, v.stake, v.isActive, v.lastSeen, v.peerId, none⟩

/-- the original format, without the registered hotkeys -/
structure ChainStateV1 (T : Type) extends StateFields (ValidatorInfoLegacy T) T
deriving DecidableEq

structure ChainStateV2 (T : Type) extends StateFields (ValidatorInfoLegacy T) T where
  registeredHotkeys : HashSet Hotkey
deriving DecidableEq

def StateFields.migrate {T : Type} (s : StateFields (ValidatorInfoLegacy T) T) :
    StateFields (ValidatorInfo T) T where
  blockHeight := s.blockHeight
  epoch := s.epoch
  config := s.config
  sudoKey := s.sudoKey
  validators := s.validators.mapValues ValidatorInfoLegacy.migrate
  challenges := s.challenges
  challengeConfigs := s.challengeConfigs
  mechanismConfigs := s.mechanismConfigs
  challengeWeights := s.challengeWeights
  requiredVersion := s.requiredVersion
  pendingJobs := s.pendingJobs
  stateHash := s.stateHash
  lastUpdated := s.lastUpdated

def ChainStateV1.migrate {T : Type} (s : ChainStateV1 T) : ChainState T :=
  ⟨s.toStateFields.migrate, ∅⟩

def ChainStateV2.migrate {T : Type} (s : ChainStateV2 T) : ChainState T :=
  ⟨s.toStateFields.migrate, s.registeredHotkeys⟩

namespace Layout

def versionedState : BinCodec VersionedState :=
  iso (pair u32 bytes) (fun v => (v.version, v.data)) fun (a, b) => ⟨a, b⟩

def validatorInfoLegacy {T : Type} (fmt : DateFormat T) : BinCodec (ValidatorInfoLegacy T) :=
  iso (pair hotkey (pair u64 (pair bool (pair (dateTime fmt) (option string)))))
    (fun v => (v.hotkey, v.stake, v.isActive, v.lastSeen, v.peerId))
    fun (a, b, c, d, e) => ⟨a, b, c, d, e⟩

def chainStateV1 {T : Type} (fmt : DateFormat T) : BinCodec (ChainStateV1 T) :=
  iso (stateFields (validatorInfoLegacy fmt) fmt) ChainStateV1.toStateFields ChainStateV1.mk

def chainStateV2 {T : Type} (fmt : DateFormat T) : BinCodec (ChainStateV2 T) :=
  iso (pair (stateFields (validatorInfoLegacy fmt) fmt) (set hotkey))
    (fun s => (s.toStateFields, s.registeredHotkeys)) fun (a, b) => ⟨a, b⟩

section
variable {T : Type} {fmt : DateFormat T} (hf : fmt.Lawful)
include hf

theorem lawful_validatorInfoLegacy : (validatorInfoLegacy fmt).Lawful :=
  lawful_iso (lawful_pair lawful_hotkey (lawful_pair lawful_u64 (lawful_pair lawful_bool
    (lawful_pair (lawful_dateTime hf) (lawful_option lawful_string))))) fun _ => rfl

theorem lawful_chainStateV1 : (chainStateV1 fmt).Lawful :=
  lawful_iso (lawful_stateFields hf (lawful_validatorInfoLegacy hf)) fun _ => rfl

theorem lawful_chainStateV2 : (chainStateV2 fmt).Lawful :=
  lawful_iso (lawful_pair (lawful_stateFields hf (lawful_validatorInfoLegacy hf))
    (lawful_set lawful_hotkey)) fun _ => rfl

end

end Layout

/-! ## the loader -/

section
variable {T : Type} (fmt : DateFormat T)

def migrateState (version : UInt32) (data : Bytes) : Except MiniChainError (ChainState T) :=
  match version.toNat with
  | 1 =>
    match (chainStateV1 fmt).deserialize data with
    | .ok v1 => .ok v1.migrate
    | .error e => .error (.serialization ("V1 migration failed: " ++ e.display))
  | 2 =>
    match (chainStateV2 fmt).deserialize data with
    | .ok v2 => .ok v2.migrate
    | .error e => .error (.serialization ("V2 migration failed: " ++ e.display))
  | n => .error (.serialization ("Unknown state version: " ++ n.repr))

def VersionedState.fromState (state : ChainState T) : VersionedState :=
  ⟨currentStateVersion, (chainState fmt).ser state⟩

def VersionedState.intoState (v : VersionedState) : Except MiniChainError (ChainState T) :=
  if v.version = currentStateVersion then
    match (chainState fmt).deserialize v.data with
    | .ok state => .ok state
    | .error e => .error (.serialization e.display)
  else if minSupportedVersion ≤ v.version then migrateState fmt v.version v.data
  else .error (.serialization ("State version " ++ v.version.toNat.repr ++
    " is too old (minimum supported: " ++ minSupportedVersion.toNat.repr ++ ")"))

def serializeStateVersioned (state : ChainState T) : Bytes :=
  versionedState.ser (VersionedState.fromState fmt state)

def deserializeStateSmart (data : Bytes) : Except MiniChainError (ChainState T) :=
  -- the result of the first strategy is returned also when it is an error
  match versionedState.deserialize data with
  | .ok versioned => versioned.intoState fmt
  | .error _ =>
    match (chainState fmt).deserialize data with
    | .ok state => .ok state
    | .error _ =>
      match (chainStateV2 fmt).deserialize data with
      | .ok v2 => .ok v2.migrate
      | .error _ =>
        match (chainStateV1 fmt).deserialize data with
        | .ok v1 => .ok v1.migrate
        | .error _ =>
          .error (.serialization "Failed to deserialize state: incompatible format")

end

/-! ## states with a header -/

section
variable {T : Type} {fmt : DateFormat T}

/-- the validator as the old formats have it -/
def ValidatorInfo.legacy (v : ValidatorInfo T) : ValidatorInfoLegacy T :=
  ⟨v.hotkey, v.stake, v.isActive, v.lastSeen, v.peerId⟩

/-- the fields that the old formats have -/
def StateFields.legacy (s : StateFields (ValidatorInfo T) T) :
    StateFields (ValidatorInfoLegacy T) T where
  blockHeight := s.blockHeight
  epoch := s.epoch
  config := s.config
  sudoKey := s.sudoKey
  validators := s.validators.mapValues ValidatorInfo.legacy
  challenges := s.challenges
  challengeConfigs := s.challengeConfigs
  mechanismConfigs := s.mechanismConfigs
  challengeWeights := s.challengeWeights
  requiredVersion := s.requiredVersion
  pendingJobs := s.pendingJobs
  stateHash := s.stateHash
  lastUpdated := s.lastUpdated

theorem legacy_migrate (s : StateFields (ValidatorInfoLegacy T) T) : s.migrate.legacy = s := by
  have hvl : (s.validators.mapValues ValidatorInfoLegacy.migrate).mapValues
      ValidatorInfo.legacy = s.validators := by
    apply AList.ext
    show (s.validators.entries.map _).map _ = s.validators.entries
    rw [map_map]
    exact map_id _
  unfold StateFields.migrate StateFields.legacy
  rw [hvl]

theorem lawful_versionedState : versionedState.Lawful :=
  lawful_iso (lawful_pair lawful_u32 lawful_bytes) fun _ => rfl

theorem deserializeStateSmart_versioned {v : VersionedState}
    (hl : (versionedState.ser v).length < 2 ^ 64) :
    deserializeStateSmart fmt (versionedState.ser v) = v.intoState fmt := by
  rw [deserializeStateSmart, lawful_versionedState.deserialize hl]

theorem length_data_lt {v : VersionedState} (hl : (versionedState.ser v).length < 2 ^ 64) :
    v.data.length < 2 ^ 64 := by
  have hsr : (versionedState.ser v).length = 12 + v.data.length := by
    simp [versionedState, iso, pair, u32, uint, bytes, ← Nat.add_assoc]
  omega

/-- **A state with a header comes back.**  One of the current version comes back as it was, one of
an older version with all the fields it had. -/
theorem versioned_state_loads (hfmt : fmt.Lawful) :
    (∀ s : ChainState T, (serializeStateVersioned fmt s).length < 2 ^ 64 →
      deserializeStateSmart fmt (serializeStateVersioned fmt s) = .ok s) ∧
    (∀ v : ChainStateV1 T, ∀ bs, bs = versionedState.ser ⟨1, (chainStateV1 fmt).ser v⟩ →
      bs.length < 2 ^ 64 → ∃ s, deserializeStateSmart fmt bs = .ok s ∧
        s.toStateFields.legacy = v.toStateFields ∧ s.registeredHotkeys = ∅) ∧
    (∀ v : ChainStateV2 T, ∀ bs, bs = versionedState.ser ⟨2, (chainStateV2 fmt).ser v⟩ →
      bs.length < 2 ^ 64 → ∃ s, deserializeStateSmart fmt bs = .ok s ∧
        s.toStateFields.legacy = v.toStateFields ∧
        s.registeredHotkeys = v.registeredHotkeys) := by
  refine ⟨?_, ?_, ?_⟩
  · intro s hl
    have hdt := (lawful_chainState hfmt).deserialize (length_data_lt hl)
    rw [serializeStateVersioned, deserializeStateSmart_versioned hl]
    unfold VersionedState.intoState VersionedState.fromState
    rw [if_pos rfl, hdt]
  · intro v bs hbs hl
    subst hbs
    have hdt := (lawful_chainStateV1 hfmt).deserialize (length_data_lt hl)
    refine ⟨v.migrate, ?_, legacy_migrate _, rfl⟩
    rw [deserializeStateSmart_versioned hl]
    unfold VersionedState.intoState migrateState
    rw [if_neg (by decide : (1 : UInt32) ≠ currentStateVersion),
      if_pos (by decide : minSupportedVersion ≤ 1)]
    simp only [show (1 : UInt32).toNat = 1 from rfl, hdt]
  · intro v bs hbs hl
    subst hbs
    have hdt := (lawful_chainStateV2 hfmt).deserialize (length_data_lt hl)
    refine ⟨v.migrate, ?_, legacy_migrate _, rfl⟩
    rw [deserializeStateSmart_versioned hl]
    unfold VersionedState.intoState migrateState
    rw [if_neg (by decide : (2 : UInt32) ≠ currentStateVersion),
      if_pos (by decide : minSupportedVersion ≤ 2)]
    simp only [show (2 : UInt32).toNat = 2 from rfl, hdt]

end

/-! ## a state without a header, read as one with a header -/

def misreadLength (height epoch : UInt64) : Nat :=
  height.toNat / 2 ^ 32 + epoch.toNat % 2 ^ 32 * 2 ^ 32

def LooksVersioned (height epoch : UInt64) (size : Nat) : Prop :=
  12 + misreadLength height epoch ≤ size

instance (height epoch : UInt64) (size : Nat) : Decidable (LooksVersioned height epoch size) :=
  inferInstanceAs (Decidable (_ ≤ _))

theorem height_epoch_bytes (height ep : UInt64) :
    leBytes 8 height.toNat ++ leBytes 8 ep.toNat =
      leBytes 4 height.toNat ++ (leBytes 8 (misreadLength height ep) ++
        leBytes 4 (ep.toNat / 2 ^ 32)) := by
  have hh : height.toNat < 2 ^ 64 := height.toNat_lt
  have hlw : leBytes 4 (misreadLength height ep) = leBytes 4 (height.toNat / 2 ^ 32) := by
    rw [← leBytes_mod 4 (misreadLength height ep)]
    congr 1
    unfold misreadLength
    omega
  have hhg : leBytes 4 (misreadLength height ep / 2 ^ 32) = leBytes 4 ep.toNat := by
    rw [← leBytes_mod 4 ep.toNat]
    congr 1
    unfold misreadLength
    omega
  have hct : ∀ x, leBytes 8 x = leBytes 4 x ++ leBytes 4 (x / 2 ^ 32) := fun x => leBytes_add 4 4 x
  rw [hct height.toNat, hct ep.toNat, hct (misreadLength height ep), hlw, hhg]
  simp only [append_assoc]

theorem misreadLength_lt (height ep : UInt64) : misreadLength height ep < 2 ^ 64 := by
  have hh : height.toNat < 2 ^ 64 := height.toNat_lt
  unfold misreadLength
  omega

variable {bs rest : Bytes}

theorem versionedState_deserialize {height epoch : UInt64}
    (hbs : bs = leBytes 8 height.toNat ++ (leBytes 8 epoch.toNat ++ rest)) :
    versionedState.deserialize bs =
      if LooksVersioned height epoch bs.length then
        .ok ⟨.ofNat height.toNat, (bs.drop 12).take (misreadLength height epoch)⟩
      else .error .unexpectedEof := by
  obtain ⟨tail, htl⟩ : ∃ tail, tail = leBytes 4 (epoch.toNat / 2 ^ 32) ++ rest := ⟨_, rfl⟩
  have hct : bs = leBytes 4 height.toNat ++ (leBytes 8 (misreadLength height epoch) ++ tail) := by
    rw [hbs, ← append_assoc, height_epoch_bytes, htl]
    simp only [append_assoc]
  have hdr : bs.drop 12 = tail := by
    rw [hct, ← append_assoc]
    exact drop_left' (by simp)
  have hl : bs.length = 12 + tail.length := by
    rw [hct]
    simp only [length_append, length_leBytes]
    omega
  have hv : u32.de bs = .ok (.ofNat height.toNat,
      leBytes 8 (misreadLength height epoch) ++ tail) := by
    rw [hct, u32, de_uint_append]
    congr 2
    apply UInt32.toNat.inj
    rw [UInt32.toNat_ofNat', UInt32.toNat_ofNat']
    omega
  -- the header reads; whether its data does is a matter of what is left
  have hde : versionedState.deserialize bs =
      ((readBytes (misreadLength height epoch) tail).map
        fun p => (⟨.ofNat height.toNat, p.1⟩ : VersionedState)) := by
    rw [versionedState, deserialize_iso, BinCodec.deserialize, de_pair_of_ok hv,
      de_bytes_append (misreadLength_lt height epoch)]
    cases readBytes (misreadLength height epoch) tail with
    | error e => rfl
    | ok p => rfl
  rw [hde, hdr, hl]
  by_cases hf : LooksVersioned height epoch (12 + tail.length)
  · have hle : misreadLength height epoch ≤ tail.length := Nat.le_of_add_le_add_left hf
    rw [if_pos hf, readBytes, if_pos hle]
    rfl
  · have hlt : tail.length < misreadLength height epoch := by
      by_contra hle
      exact hf (Nat.add_le_add_left (Nat.le_of_not_lt hle) 12)
    rw [if_neg hf, readBytes_of_lt hlt]
    rfl

/-! ## what a header can make of such a state -/

section
variable {ι T : Type} {fmt : DateFormat T}

def StateFields.head (s : StateFields ι T) : BlockHeight × UInt64 × NetworkConfig × Hotkey :=
  (s.blockHeight, s.epoch, s.config, s.sudoKey)

theorem length_stateHead (h : BlockHeight × UInt64 × NetworkConfig × Hotkey) :
    (stateHead.ser h).length = 90 := by
  simp [stateHead, pair, networkConfig, hotkey, bytes32, iso, uint, u64, u16, array,
    h.2.2.2.key.len]

def StateFields.tail (s : StateFields ι T) : StateTail T :=
  (s.challenges, s.challengeConfigs, s.mechanismConfigs, s.challengeWeights, s.requiredVersion,
    s.pendingJobs, s.stateHash, s.lastUpdated)

theorem stateFields_ser (info : BinCodec ι) (s : StateFields ι T) :
    (stateFields info fmt).ser s =
      stateHead.ser s.head ++
        ((map hotkey info).ser s.validators ++ (stateTail fmt).ser s.tail) := rfl

variable {info : BinCodec ι} {s : StateFields ι T} {suffix : Bytes}

theorem head_of_stateFields (h : (stateFields info fmt).de bs = .ok (s, rest)) :
    ∃ mid, bs = stateHead.ser s.head ++ mid := by
  obtain ⟨y, hy, rfl⟩ := de_iso_eq_ok.mp h
  obtain ⟨mid, hh, -⟩ := de_pair_eq_ok.mp hy
  exact ⟨mid, canonical_stateHead _ _ _ hh⟩

theorem intoState_eq_ok {v : VersionedState} {s : ChainState T} (h : v.intoState fmt = .ok s) :
    (1 ≤ v.version.toNat ∧ v.version.toNat ≤ 3) ∧
      ∃ mid, v.data = stateHead.ser s.toStateFields.head ++ mid := by
  unfold VersionedState.intoState at h
  split at h
  · next hv =>
    rw [hv]
    refine ⟨by decide, ?_⟩
    split at h
    · next hde =>
      cases h
      obtain ⟨rest, hde⟩ := deserialize_eq_ok.mp hde
      obtain ⟨y, hy, rfl⟩ := de_iso_eq_ok.mp hde
      obtain ⟨mid, hfl, -⟩ := de_pair_eq_ok.mp hy
      exact head_of_stateFields hfl
    · cases h
  split at h
  · unfold migrateState at h
    split at h
    · next hv =>
      rw [hv]
      refine ⟨by decide, ?_⟩
      split at h
      · next hde =>
        cases h
        obtain ⟨rest, hde⟩ := deserialize_eq_ok.mp hde
        obtain ⟨y, hy, rfl⟩ := de_iso_eq_ok.mp hde
        obtain ⟨mid, hm⟩ := head_of_stateFields hy
        exact ⟨mid, hm⟩
      · cases h
    · next hv =>
      rw [hv]
      refine ⟨by decide, ?_⟩
      split at h
      · next hde =>
        cases h
        obtain ⟨rest, hde⟩ := deserialize_eq_ok.mp hde
        obtain ⟨y, hy, rfl⟩ := de_iso_eq_ok.mp hde
        obtain ⟨mid, hfl, -⟩ := de_pair_eq_ok.mp hy
        obtain ⟨mid, hm⟩ := head_of_stateFields hfl
        exact ⟨mid, hm⟩
      · cases h
    · cases h
  · cases h

theorem getElem?_of_period {head mid tail : Bytes} {k : Nat} (hbs : bs = head ++ rest)
    (hdr : bs.drop k = head ++ mid ++ tail) (i : Nat) (hi : i < head.length) :
    bs[i + k]? = bs[i]? := by
  have h := congrArg (fun l : Bytes => l[i]?) hdr
  simp only [getElem?_drop, append_assoc, getElem?_append_left hi] at h
  rw [Nat.add_comm i k, h, hbs, getElem?_append_left hi]

theorem many_validators_of_misread {t : ChainState T} (hh : t.toStateFields.head = s.head)
    (hld : VersionedState.intoState fmt ⟨.ofNat s.blockHeight.toNat,
      (((stateFields info fmt).ser s ++ suffix).drop 12).take
        (misreadLength s.blockHeight s.epoch)⟩ = .ok t) :
    2 ^ 48 ≤ s.validators.size := by
  obtain ⟨⟨hlo, hhi⟩, mid, hdt⟩ := intoState_eq_ok hld
  obtain ⟨rest, hr⟩ : ∃ rest, (map hotkey info).ser s.validators =
      leBytes 8 s.validators.size ++ rest := by
    rw [show s.validators.size = s.validators.inserted.length by
      simp [HashMap.inserted, HashMap.size]]
    exact ⟨_, rfl⟩
  obtain ⟨bs, hbs⟩ : ∃ bs, bs = (stateFields info fmt).ser s ++ suffix := ⟨_, rfl⟩
  have hfr : bs = stateHead.ser s.head ++ (leBytes 8 s.validators.size ++
      (rest ++ ((stateTail fmt).ser s.tail ++ suffix))) := by
    rw [hbs, stateFields_ser, hr]
    simp only [append_assoc]
  have hdr : bs.drop 12 = stateHead.ser s.head ++ mid ++
      (bs.drop 12).drop (misreadLength s.blockHeight s.epoch) := by
    rw [hh, ← hbs] at hdt
    rw [← hdt]
    exact (take_append_drop _ _).symm
  have hstep : ∀ i, i < 90 → bs[i + 12]? = bs[i]? := fun i hi =>
    getElem?_of_period hfr hdr i (by rw [length_stateHead]; exact hi)
  have hsv : bs[96]? = some (UInt8.ofNat (s.validators.size / 256 ^ 6)) := by
    rw [hfr, getElem?_append_right (by rw [length_stateHead]; omega), length_stateHead]
    exact getElem?_leBytes 8 _ 6 (by omega)
  have hfs : bs[0]? = some (UInt8.ofNat s.blockHeight.toNat) := by
    rw [hfr]
    rfl
  have hs : UInt8.ofNat (s.validators.size / 256 ^ 6) = UInt8.ofNat s.blockHeight.toNat := by
    rw [← Option.some_inj, ← hsv, ← hfs]
    rw [hstep 84 (by omega), hstep 72 (by omega), hstep 60 (by omega), hstep 48 (by omega),
      hstep 36 (by omega), hstep 24 (by omega), hstep 12 (by omega), hstep 0 (by omega)]
  have hby := congrArg UInt8.toNat hs
  rw [UInt8.toNat_ofNat', UInt8.toNat_ofNat'] at hby
  simp only [UInt32.toNat_ofNat'] at hlo hhi
  omega

theorem versionedState_of_state (hbs : bs = (stateFields info fmt).ser s ++ suffix) :
    versionedState.deserialize bs =
      if LooksVersioned s.blockHeight s.epoch bs.length then
        .ok ⟨.ofNat s.blockHeight.toNat, (bs.drop 12).take (misreadLength s.blockHeight s.epoch)⟩
      else .error .unexpectedEof := by
  have hct : bs = leBytes 8 s.blockHeight.toNat ++ (leBytes 8 s.epoch.toNat ++
      ((pair networkConfig hotkey).ser s.head.2.2 ++
        ((map hotkey info).ser s.validators ++ ((stateTail fmt).ser s.tail ++ suffix)))) := by
    rw [hbs, stateFields_ser]
    simp only [append_assoc]
    rfl
  exact versionedState_deserialize hct

theorem not_load_of_looksVersioned (hif : info.Lawful) {t : ChainState T}
    (hbs : bs = (stateFields info fmt).ser s ++ suffix) (hh : t.toStateFields.head = s.head)
    (hl : bs.length < 2 ^ 48) (hlk : LooksVersioned s.blockHeight s.epoch bs.length) :
    deserializeStateSmart fmt bs ≠ .ok t := by
  intro hld
  rw [deserializeStateSmart, versionedState_of_state hbs, if_pos hlk] at hld
  rw [hbs] at hld
  have hm := many_validators_of_misread hh hld
  have hsz := size_le_length_map lawful_hotkey hif s.validators
  rw [hbs, stateFields_ser, length_append, length_append, length_append] at hl
  omega

theorem versionedState_error (hbs : bs = (stateFields info fmt).ser s ++ suffix)
    (hlk : ¬ LooksVersioned s.blockHeight s.epoch bs.length) :
    versionedState.deserialize bs = .error .unexpectedEof := by
  rw [versionedState_of_state hbs, if_neg hlk]

end

/-! ## the other strategies -/

section
variable {T : Type} {fmt : DateFormat T}

/-- The bytes of an old state are those of a current one too, other than its migration. -/
def AlsoReadsAs (fmt : DateFormat T) (bs : Bytes) (migrated : ChainState T) : Prop :=
  ∃ t, (chainState fmt).deserialize bs = .ok t ∧ t ≠ migrated

theorem deserialize_pair_eof {α : Type} {c : BinCodec α} (hc : c.Lawful) {x : α}
    (hx : (c.ser x).length < 2 ^ 64) :
    (pair c (set hotkey)).deserialize (c.ser x) = .error .unexpectedEof := by
  have h := hc.reads x [] hx
  rw [append_nil] at h
  rw [BinCodec.deserialize, de_pair_of_ok h]
  rfl

theorem stateFields_ser_migrate {s : StateFields (ValidatorInfoLegacy T) T}
    (hs : s.validators = ∅) : (stateFields (validatorInfo fmt) fmt).ser s.migrate =
      (stateFields (validatorInfoLegacy fmt) fmt).ser s := by
  have hm : s.migrate.validators = ∅ := by
    show s.validators.mapValues _ = ∅
    rw [hs]
    rfl
  rw [stateFields_ser, stateFields_ser, hm, hs]
  rfl

theorem not_alsoReadsAs_V2 (hfmt : fmt.Lawful) {s : ChainStateV2 T} (hs : s.validators = ∅)
    (hl : ((chainStateV2 fmt).ser s).length < 2 ^ 64) :
    ¬ AlsoReadsAs fmt ((chainStateV2 fmt).ser s) s.migrate := by
  rintro ⟨t, ht, hne⟩
  have hsr : (chainState fmt).ser s.migrate = (chainStateV2 fmt).ser s := by
    show (stateFields (validatorInfo fmt) fmt).ser s.toStateFields.migrate ++ _ =
      (stateFields (validatorInfoLegacy fmt) fmt).ser s.toStateFields ++ _
    rw [stateFields_ser_migrate hs]
    rfl
  rw [← hsr] at ht hl
  rw [(lawful_chainState hfmt).deserialize hl] at ht
  exact hne (Except.ok.inj ht).symm

theorem not_alsoReadsAs_V1 (hfmt : fmt.Lawful) {s : ChainStateV1 T} (hs : s.validators = ∅)
    (hl : ((chainStateV1 fmt).ser s).length < 2 ^ 64) :
    ¬ AlsoReadsAs fmt ((chainStateV1 fmt).ser s) s.migrate := by
  rintro ⟨t, ht, -⟩
  have hsr : (stateFields (validatorInfo fmt) fmt).ser s.toStateFields.migrate =
      (chainStateV1 fmt).ser s := stateFields_ser_migrate hs
  rw [← hsr] at ht hl
  rw [chainState, deserialize_iso,
    deserialize_pair_eof (lawful_stateFields hfmt (lawful_validatorInfo hfmt)) hl] at ht
  cases ht

/-! ## when a state without a header is loaded -/

theorem chainState_ser (s : ChainState T) : (chainState fmt).ser s =
    (stateFields (validatorInfo fmt) fmt).ser s.toStateFields ++
      (set hotkey).ser s.registeredHotkeys := rfl

/-- An old state, whichever of the two layouts its bytes have. -/
theorem load_old {s : StateFields (ValidatorInfoLegacy T) T} {mig : ChainState T}
    {bs suffix : Bytes} (hfmt : fmt.Lawful)
    (hbs : bs = (stateFields (validatorInfoLegacy fmt) fmt).ser s ++ suffix)
    (hh : mig.toStateFields.head = s.head)
    (hr : ∀ e e', versionedState.deserialize bs = .error e →
      (chainState fmt).deserialize bs = .error e' → deserializeStateSmart fmt bs = .ok mig)
    (hn : s.validators = ∅ → ¬ AlsoReadsAs fmt bs mig) :
    (¬ LooksVersioned s.blockHeight s.epoch bs.length ∧
        (s.validators ≠ ∅ → ¬ AlsoReadsAs fmt bs mig) →
      deserializeStateSmart fmt bs = .ok mig) ∧
    (bs.length < 2 ^ 48 → deserializeStateSmart fmt bs = .ok mig →
      ¬ LooksVersioned s.blockHeight s.epoch bs.length ∧
        (s.validators ≠ ∅ → ¬ AlsoReadsAs fmt bs mig)) := by
  have hld : ¬ LooksVersioned s.blockHeight s.epoch bs.length →
      (deserializeStateSmart fmt bs = .ok mig ↔ ¬ AlsoReadsAs fmt bs mig) := by
    intro hlk
    have hvr := versionedState_error hbs hlk
    cases ht : (chainState fmt).deserialize bs with
    | error e => exact iff_of_true (hr _ e hvr ht) (by simp [AlsoReadsAs, ht])
    | ok t =>
      rw [deserializeStateSmart, hvr]
      simp [AlsoReadsAs, ht]
  constructor
  · rintro ⟨hlk, hoh⟩
    rw [hld hlk]
    by_cases hs : s.validators = ∅
    · exact hn hs
    · exact hoh hs
  · intro hm hok
    have hlk : ¬ LooksVersioned s.blockHeight s.epoch bs.length := fun hlk =>
      not_load_of_looksVersioned (lawful_validatorInfoLegacy hfmt) hbs hh hm hlk hok
    exact ⟨hlk, fun _ => (hld hlk).mp hok⟩

/-- **States without a version header.**  A current state is loaded as it is, and an old one as its
migration, if the bytes do not read as a version header with its data, and, for an old state with
validators, if they are not those of another current state too.  For documents that fit into the 48
bits of an address this is also needed. -/
theorem unversioned_state_loads (hfmt : fmt.Lawful) :
    (∀ s : ChainState T, ∀ bs, bs = (chainState fmt).ser s → bs.length < 2 ^ 64 →
      (¬ LooksVersioned s.blockHeight s.epoch bs.length → deserializeStateSmart fmt bs = .ok s) ∧
      (bs.length < 2 ^ 48 → deserializeStateSmart fmt bs = .ok s →
        ¬ LooksVersioned s.blockHeight s.epoch bs.length)) ∧
    (∀ s : ChainStateV2 T, ∀ bs, bs = (chainStateV2 fmt).ser s → bs.length < 2 ^ 64 →
      (¬ LooksVersioned s.blockHeight s.epoch bs.length ∧
          (s.validators ≠ ∅ → ¬ AlsoReadsAs fmt bs s.migrate) →
        deserializeStateSmart fmt bs = .ok s.migrate) ∧
      (bs.length < 2 ^ 48 → deserializeStateSmart fmt bs = .ok s.migrate →
        ¬ LooksVersioned s.blockHeight s.epoch bs.length ∧
          (s.validators ≠ ∅ → ¬ AlsoReadsAs fmt bs s.migrate))) ∧
    (∀ s : ChainStateV1 T, ∀ bs, bs = (chainStateV1 fmt).ser s → bs.length < 2 ^ 64 →
      (¬ LooksVersioned s.blockHeight s.epoch bs.length ∧
          (s.validators ≠ ∅ → ¬ AlsoReadsAs fmt bs s.migrate) →
        deserializeStateSmart fmt bs = .ok s.migrate) ∧
      (bs.length < 2 ^ 48 → deserializeStateSmart fmt bs = .ok s.migrate →
        ¬ LooksVersioned s.blockHeight s.epoch bs.length ∧
          (s.validators ≠ ∅ → ¬ AlsoReadsAs fmt bs s.migrate))) := by
  refine ⟨?_, ?_, ?_⟩
  · rintro s bs rfl hl
    constructor
    · intro hlk
      rw [deserializeStateSmart, versionedState_error (chainState_ser s) hlk,
        (lawful_chainState hfmt).deserialize hl]
    · intro hm hld hlk
      exact not_load_of_looksVersioned (lawful_validatorInfo hfmt) (chainState_ser s) rfl hm
        hlk hld
  · rintro s bs rfl hl
    refine load_old hfmt rfl rfl (fun e e' he he' => ?_) fun hs => not_alsoReadsAs_V2 hfmt hs hl
    rw [deserializeStateSmart, he, he', (lawful_chainStateV2 hfmt).deserialize hl]
  · rintro s bs rfl hl
    refine load_old hfmt (append_nil _).symm rfl (fun e e' he he' => ?_) fun hs =>
      not_alsoReadsAs_V1 hfmt hs hl
    have hsh : (chainStateV2 fmt).deserialize ((chainStateV1 fmt).ser s) =
        .error .unexpectedEof := by
      rw [chainStateV2, deserialize_iso]
      show Except.map _ ((pair _ _).deserialize ((stateFields _ fmt).ser s.toStateFields)) = _
      rw [deserialize_pair_eof (lawful_stateFields hfmt (lawful_validatorInfoLegacy hfmt)) hl]
      rfl
    rw [deserializeStateSmart, he, he', hsh, (lawful_chainStateV1 hfmt).deserialize hl]

end

/-- the first two seconds of 1970 as chrono writes them -/
def sampleDates : DateFormat (Fin 2) where
  text t := if t = 0 then "1970-01-01T00:00:00Z" else "1970-01-01T00:00:01Z"
  parse s :=
    if s = "1970-01-01T00:00:00Z" then .ok 0 else if s = "1970-01-01T00:00:01Z" then .ok 1
    else .error "input contains invalid characters"

theorem sampleDates_lawful : sampleDates.Lawful := by
  unfold DateFormat.Lawful
  decide +kernel

/-- `ChainState::new` advanced to a height and an epoch -/
def sampleState (height epoch : UInt64) : ChainState (Fin 2) where
  blockHeight := height
  epoch := epoch
  config := .default
  sudoKey := .ofByte 7
  validators := ∅
  challenges := ∅
  challengeConfigs := ∅
  mechanismConfigs := ∅
  challengeWeights := ∅
  requiredVersion := none
  pendingJobs := []
  stateHash := (Hotkey.ofByte 1).key
  lastUpdated := 0
  registeredHotkeys := ∅

/-- with a header, the first epoch is read as well -/
theorem versioned_state_loads_first_epoch :
    deserializeStateSmart sampleDates (serializeStateVersioned sampleDates (sampleState 0 0)) =
      .ok (sampleState 0 0) :=
  (versioned_state_loads sampleDates_lawful).1 (sampleState 0 0) (by decide +kernel)

theorem unversioned_state_loads_epoch_two :
    deserializeStateSmart sampleDates ((chainState sampleDates).ser (sampleState 50 2)) =
      .ok (sampleState 50 2) :=
  ((unversioned_state_loads sampleDates_lawful).1 (sampleState 50 2) _ rfl
    (by decide +kernel)).1 (by decide +kernel)

def overlappingValidator : ValidatorInfoLegacy (Fin 2) where
  hotkey := ⟨⟨[1, 101, 0, 0, 0, 0, 0, 0, 0] ++ replicate 23 0, rfl⟩⟩
  stake := 0
  isActive := true
  lastSeen := 0
  peerId := some (String.ofList (replicate 73 '\x00' ++ ['\x14'] ++ replicate 7 '\x00' ++
    "1970-01-01T00:00:00Z".toList ++ replicate 75 '\x00' ++ ['\x14'] ++
    replicate 7 '\x00' ++ "1970-01-01T00:00:00Z".toList ++ replicate 52 '\x00'))

def overlappingState : ChainStateV2 (Fin 2) where
  toStateFields := { (sampleState 50 2).toStateFields with
    validators := HashMap.collect [(.ofByte 9, ⟨.ofByte 9, 0, true, 0, none⟩),
      (overlappingValidator.hotkey, overlappingValidator)] }
  registeredHotkeys := ∅

/-- A chain in its first epoch does not come back: its height is taken for a version.  And a state
of version 2 can come back as another state. -/
theorem first_epoch_state_lost :
    (deserializeStateSmart sampleDates ((chainState sampleDates).ser (sampleState 0 0)) =
        .error (.serialization "State version 0 is too old (minimum supported: 1)") ∧
      ¬ ∀ s : ChainState (Fin 2),
        deserializeStateSmart sampleDates ((chainState sampleDates).ser s) = .ok s) ∧
    (∃ t, deserializeStateSmart sampleDates ((chainStateV2 sampleDates).ser overlappingState) =
      .ok t ∧ t ≠ overlappingState.migrate) := by
  have hls : deserializeStateSmart sampleDates ((chainState sampleDates).ser (sampleState 0 0)) =
      .error (.serialization "State version 0 is too old (minimum supported: 1)") := by
    decide +kernel
  refine ⟨⟨hls, fun h => ?_⟩, ?_⟩
  · have hld := h (sampleState 0 0)
    rw [hls] at hld
    cases hld
  · have hoh : (deserializeStateSmart sampleDates
        ((chainStateV2 sampleDates).ser overlappingState)).toOption.any
          (· ≠ overlappingState.migrate) = true := by
      decide +kernel
    cases hld : deserializeStateSmart sampleDates
        ((chainStateV2 sampleDates).ser overlappingState) with
    | error e =>
      rw [hld] at hoh
      cases hoh
    | ok t =>
      rw [hld] at hoh
      exact ⟨t, rfl, of_decide_eq_true hoh⟩

end Platform.Chain
