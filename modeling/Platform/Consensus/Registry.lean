import Platform.Consensus.Validator
import Platform.Lib.Machine

/-!
# Who gets into the validator set

The node writes its validator set from three places: the metagraph of the chain, the heartbeats of
its peers and the check for stale validators.  Only the first one looks at the chain.  A heartbeat
brings its own stake, which is taken as it is unless a verified stake is on record, and the node
never records one.
-/

namespace Platform.Consensus
open Lib Platform.Core ValidatorSet

def ValidatorRecord.updateFromHeartbeat (now : Int) (r : ValidatorRecord) (stateHash : Bytes32)
    (sequence : SequenceNumber) (stake : UInt64) : ValidatorRecord :=
  { r with
    stateHash := stateHash
    lastSequence := sequence
    stake := stake
    lastSeen := now
    isActive := true }

namespace ValidatorSet

variable (now : Int) (vs : ValidatorSet)

def put (record : ValidatorRecord) : ValidatorSet :=
  { vs with
    validators := vs.validators.insert record.hotkey record
    keyed := by
      intro k r h
      rcases (HashMap.lookup_insert_iff _ _ _ _ _).mp h with ⟨rfl, rfl⟩ | ⟨_, h'⟩
      · rfl
      · exact vs.keyed k r h' }

def stakeToUse (hotkey : Hotkey) (reported : UInt64) : UInt64 :=
  (vs.verifiedStakes.lookup hotkey).getD reported

def updateFromHeartbeat (now : Int) (vs : ValidatorSet) (hotkey : Hotkey) (stateHash : Bytes32)
    (sequence : SequenceNumber) (reported : UInt64) : Except ValidatorError Unit × ValidatorSet :=
  let stake := vs.stakeToUse hotkey reported
  match vs.validators.lookup hotkey with
  | some r => (.ok (), vs.put (r.updateFromHeartbeat now stateHash sequence stake))
  | none =>
    if vs.minStake ≤ stake then
      match vs.registerValidator
          ((ValidatorRecord.new now hotkey stake).updateFromHeartbeat now stateHash sequence
            stake) with
      | .ok vs' => (.ok (), vs')
      | .error err => (.error err, vs)
    else (.error (.notFound hotkey.toHex), vs)

def markStale (thresholdMs : Int) (r : ValidatorRecord) : ValidatorRecord :=
  if r.isStale now thresholdMs && r.isActive then { r with isActive := false } else r

theorem markStale_hotkey (now th : Int) (r : ValidatorRecord) :
    (markStale now th r).hotkey = r.hotkey := by
  unfold markStale
  split <;> rfl

theorem markStale_stake (now th : Int) (r : ValidatorRecord) :
    (markStale now th r).stake = r.stake := by
  unfold markStale
  split <;> rfl

def markStaleValidators : ValidatorSet :=
  { vs with
    validators := vs.validators.mapValues (markStale now vs.staleThresholdMs)
    keyed := by
      intro k r h
      rw [HashMap.lookup_mapValues, Option.map_eq_some_iff] at h
      obtain ⟨r', hr', rfl⟩ := h
      rw [markStale_hotkey]
      exact vs.keyed k r' hr' }

/-! ## what the writers write -/

theorem registered_stake (rd : ValidatorRecord) : (vs.registered rd).stake = rd.stake := by
  unfold registered
  cases vs.validators.lookup rd.hotkey <;> rfl

theorem registerValidator_ok {vs vs' : ValidatorSet} {rd : ValidatorRecord}
    (h : vs.registerValidator rd = .ok vs') :
    vs.minStake ≤ rd.stake ∧ vs'.minStake = vs.minStake ∧
      vs'.validators = vs.validators.insert rd.hotkey (vs.registered rd) := by
  unfold registerValidator at h
  split at h
  · cases h
  · rename_i hlt
    cases h
    exact ⟨UInt64.not_lt.mp hlt, rfl, rfl⟩

theorem le_cap_iff (m : UInt64) (stake : Nat) :
    m ≤ UInt64.ofNat (min stake (2 ^ 64 - 1)) ↔ m.toNat ≤ stake := by
  have hm := m.toNat_lt
  rw [UInt64.le_iff_toNat_le, UInt64.toNat_ofNat']
  omega

@[simp] theorem minStake_updateFromMetagraph (nrs : List (Hotkey × Nat)) (vs : ValidatorSet) :
    (updateFromMetagraph now vs nrs).minStake = vs.minStake := by
  induction nrs generalizing vs with
  | nil => rfl
  | cons a nrs ih =>
    unfold updateFromMetagraph
    split
    · rename_i vs' hrg
      rw [ih, (registerValidator_ok hrg).2.1]
    · exact ih vs

/-- **What a metagraph writes**: a record after it was there before, or is one of its neurons with
at least the minimum stake. -/
theorem lookup_updateFromMetagraph (nrs : List (Hotkey × Nat)) (vs : ValidatorSet) (k : Hotkey)
    (r : ValidatorRecord) (h : (updateFromMetagraph now vs nrs).validators.lookup k = some r) :
    vs.validators.lookup k = some r ∨
      (vs.minStake ≤ r.stake ∧ ∃ stk, (k, stk) ∈ nrs ∧ vs.minStake.toNat ≤ stk) := by
  induction nrs generalizing vs with
  | nil => exact Or.inl h
  | cons a nrs ih =>
    obtain ⟨hotkey, stk⟩ := a
    unfold updateFromMetagraph at h
    split at h
    · rename_i vs' hrg
      obtain ⟨hm, hm', hvs'⟩ := registerValidator_ok hrg
      rcases ih vs' h with ho | ⟨hr, s, hs, hms⟩
      · rw [hvs', HashMap.lookup_insert_iff] at ho
        rcases ho with ⟨rfl, rfl⟩ | ⟨-, ho⟩
        · refine Or.inr ⟨by rw [registered_stake]; exact hm, stk, List.mem_cons_self, ?_⟩
          exact (le_cap_iff _ _).mp hm
        · exact Or.inl ho
      · rw [hm'] at hr hms
        exact Or.inr ⟨hr, s, List.mem_cons_of_mem _ hs, hms⟩
    · rcases ih vs h with ho | ⟨hr, s, hs, hms⟩
      · exact Or.inl ho
      · exact Or.inr ⟨hr, s, List.mem_cons_of_mem _ hs, hms⟩

def heartbeatRecord (hotkey : Hotkey) (stateHash : Bytes32) (sequence : SequenceNumber)
    (reported : UInt64) : Option ValidatorRecord :=
  let stake := vs.stakeToUse hotkey reported
  match vs.validators.lookup hotkey with
  | some r => some (r.updateFromHeartbeat now stateHash sequence stake)
  | none =>
    if vs.minStake ≤ stake then
      some ((ValidatorRecord.new now hotkey stake).updateFromHeartbeat now stateHash sequence stake)
    else none

/-- **What a heartbeat writes**: the record of the validator it names, and no other. -/
theorem lookup_updateFromHeartbeat (hotkey : Hotkey) (sh : Bytes32)
    (seq : SequenceNumber) (rp : UInt64) (k : Hotkey) :
    (vs.updateFromHeartbeat now hotkey sh seq rp).2.validators.lookup k =
      if k = hotkey then
        vs.heartbeatRecord now hotkey sh seq rp
      else vs.validators.lookup k := by
  unfold updateFromHeartbeat heartbeatRecord
  cases hr : vs.validators.lookup hotkey with
  | some r =>
    have hk : (r.updateFromHeartbeat now sh seq (vs.stakeToUse hotkey rp)).hotkey = hotkey := by
      show r.hotkey = hotkey
      exact vs.keyed _ _ hr
    simp only [put, hk]
    by_cases h : k = hotkey
    · subst h
      rw [AList.lookup_insert, if_pos rfl]
    · rw [AList.lookup_insert_ne h, if_neg h]
  | none =>
    by_cases hm : vs.minStake ≤ vs.stakeToUse hotkey rp
    · have hnl : ¬ vs.stakeToUse hotkey rp < vs.minStake := UInt64.not_lt.mpr hm
      simp only [if_pos hm, registerValidator, ValidatorRecord.updateFromHeartbeat,
        ValidatorRecord.new, if_neg hnl, registered, hr]
      by_cases h : k = hotkey
      · subst h
        rw [AList.lookup_insert, if_pos rfl]
      · rw [AList.lookup_insert_ne h, if_neg h]
    · simp only [if_neg hm]
      by_cases h : k = hotkey
      · subst h
        rw [if_pos rfl, hr]
      · rw [if_neg h]

@[simp] theorem minStake_updateFromHeartbeat (hotkey : Hotkey) (sh : Bytes32)
    (seq : SequenceNumber) (rp : UInt64) :
    (vs.updateFromHeartbeat now hotkey sh seq rp).2.minStake = vs.minStake := by
  unfold updateFromHeartbeat
  cases vs.validators.lookup hotkey with
  | some r => rfl
  | none =>
    dsimp only
    split
    · split
      · rename_i vs' hrg
        exact (registerValidator_ok hrg).2.1
      · rfl
    · rfl

end ValidatorSet

/-! ## runs of the node's writers -/

/-- the calls by which the node writes its validator set -/
inductive RegistryOp where
  | metagraph (neurons : List (Hotkey × Nat))
  | heartbeat (hb : HeartbeatMessage)
  | markStale
deriving DecidableEq

/-- one call at time `a.1`; the node drops the results -/
def registryNext (vs : ValidatorSet) (a : Int × RegistryOp) : Unit × ValidatorSet :=
  match a.2 with
  | .metagraph neurons => ((), vs.updateFromMetagraph a.1 neurons)
  | .heartbeat hb =>
    ((), (vs.updateFromHeartbeat a.1 hb.validator hb.stateHash hb.sequence hb.stake).2)
  | .markStale => ((), vs.markStaleValidators a.1)

abbrev RegistryCall := Call ValidatorSet (Int × RegistryOp) Unit

def Synced (l : List RegistryCall) (m : UInt64) (k : Hotkey) : Prop :=
  ∃ c ∈ l, ∃ neurons, c.input.2 = .metagraph neurons ∧
    ∃ stake, (k, stake) ∈ neurons ∧ m.toNat ≤ stake

theorem Synced.mono {l : List RegistryCall} {m : UInt64} {k : Hotkey} (h : Synced l m k)
    (c : RegistryCall) : Synced (l ++ [c]) m k := by
  obtain ⟨c', hc', h'⟩ := h
  exact ⟨c', List.mem_append_left _ hc', h'⟩

def RegistryOp.givenHeartbeat : RegistryOp → Option HeartbeatMessage
  | .heartbeat hb => some hb
  | _ => none

def HeartbeatFits (c : RegistryCall) : Prop :=
  ∀ hb ∈ c.input.2.givenHeartbeat, (c.before.isValidator hb.validator = true ↔
    c.before.minStake ≤ c.before.stakeToUse hb.validator hb.stake)

instance (c : RegistryCall) : Decidable (HeartbeatFits c) :=
  Option.decidableForallMem c.input.2.givenHeartbeat

structure Backed (m : UInt64) (l : List RegistryCall) (vs : ValidatorSet) : Prop where
  minStake : vs.minStake = m
  backed : ∀ k r, vs.validators.lookup k = some r → m ≤ r.stake ∧ Synced l m k

theorem backed_new (kp : Keypair) (m : UInt64) : Backed m [] (new kp m) where
  minStake := rfl
  backed := by
    intro k r h
    cases h

theorem Backed.step {m : UInt64} {l : List RegistryCall} {vs vs' : ValidatorSet} {c : RegistryCall}
    (hi : Backed m l vs) (hs : CallStep registryNext vs c vs') (hf : HeartbeatFits c) :
    Backed m (l ++ [c]) vs' := by
  have hvs' := hs.after_eq
  have hb := hs.1
  obtain ⟨pre, ⟨now, op⟩, out, after⟩ := c
  subst hb hvs'
  cases op with
  | metagraph nrs =>
    refine ⟨by simpa [registryNext] using hi.minStake, fun k r h => ?_⟩
    rcases lookup_updateFromMetagraph now nrs _ k r h with hold | ⟨hr, hn⟩
    · exact ⟨(hi.backed k r hold).1, (hi.backed k r hold).2.mono _⟩
    · rw [hi.minStake] at hr hn
      exact ⟨hr, _, List.mem_append_right _ List.mem_cons_self, nrs, rfl, hn⟩
  | heartbeat hb =>
    refine ⟨by simpa [registryNext] using hi.minStake, fun k r h => ?_⟩
    dsimp only [registryNext] at h
    rw [lookup_updateFromHeartbeat] at h
    split at h
    · rename_i hk
      subst hk
      -- the named validator is registered, or nothing is written
      unfold heartbeatRecord at h
      cases hr : pre.validators.lookup hb.validator with
      | some r₀ =>
        rw [hr] at h
        cases h
        have hrg : pre.isValidator hb.validator = true := decide_eq_true (HashMap.mem_of_lookup hr)
        have hm := (hf hb rfl).mp hrg
        rw [hi.minStake] at hm
        exact ⟨hm, (hi.backed _ _ hr).2.mono _⟩
      | none =>
        rw [hr] at h
        have hnt : ¬ pre.isValidator hb.validator = true := by
          simp [isValidator, ← AList.lookup_isSome, hr]
        dsimp only at h
        rw [if_neg fun hm => hnt ((hf hb rfl).mpr hm)] at h
        cases h
    · exact ⟨(hi.backed k r h).1, (hi.backed k r h).2.mono _⟩
  | markStale =>
    refine ⟨hi.minStake, fun k r h => ?_⟩
    dsimp only [registryNext, markStaleValidators] at h
    rw [HashMap.lookup_mapValues, Option.map_eq_some_iff] at h
    obtain ⟨r₀, hr₀, rfl⟩ := h
    rw [markStale_stake]
    exact ⟨(hi.backed k r₀ hr₀).1, (hi.backed k r₀ hr₀).2.mono _⟩

/-- **Only chain-backed validators**, in every run whose heartbeats are for registered validators
exactly when they count with at least the minimum stake. -/
theorem chain_backed (kp : Keypair) (m : UInt64) (l : List RegistryCall) (vs : ValidatorSet)
    (h : MachineRun registryNext (new kp m) l vs)
    (hfit : ∀ c ∈ l, HeartbeatFits c) :
    ∀ k r, vs.validators.lookup k = some r → m ≤ r.stake ∧ Synced l m k := by
  have hiv : Backed m l vs := by
    refine Run.logInvariant (backed_new kp m) ?_ (Run.restrict h hfit)
    rintro l s c s' - hi ⟨hs, hc⟩
    exact hi.step hs hc
  exact hiv.backed

/-- Validator `1` comes in through the metagraph, reports its stake and goes stale; validator `2`
has too little stake for either way. -/
theorem chain_backed_sample :
    let run := trace registryNext (new (⟨.ofByte 0⟩) 1000)
      [(0, .metagraph [(.ofByte 1, 5000), (.ofByte 2, 10)]),
        (5, .heartbeat (sampleHeartbeat 1 4000)), (6, .heartbeat (sampleHeartbeat 2 10)),
        (100000, .markStale)]
    run.2.validators.size = 1 ∧
      ∀ k r, run.2.validators.lookup k = some r → 1000 ≤ r.stake ∧ Synced run.1 1000 k :=
  ⟨by decide +kernel,
    chain_backed ⟨.ofByte 0⟩ 1000 _ _ (machineRun_trace _ _ _) (by decide +kernel)⟩

/-- **A heartbeat is enough.**  Validator `3` is in no metagraph and comes in with the stake that
it reports itself. -/
theorem chain_backed_self_reported :
    ¬ ∀ (kp : Keypair) (m : UInt64) (l : List RegistryCall) (vs : ValidatorSet),
      MachineRun registryNext (new kp m) l vs →
      ∀ k r, vs.validators.lookup k = some r → m ≤ r.stake ∧ Synced l m k := by
  intro h
  have hrun := machineRun_trace registryNext (new ⟨.ofByte 0⟩ 1000)
    [(0, .heartbeat (sampleHeartbeat 3 1000))]
  have hk : ∃ r, (trace registryNext (new ⟨.ofByte 0⟩ 1000)
      [(0, .heartbeat (sampleHeartbeat 3 1000))]).2.validators.lookup (.ofByte 3) = some r :=
    Option.isSome_iff_exists.mp (by decide +kernel)
  obtain ⟨r, hr⟩ := hk
  obtain ⟨-, c, hc, nrs, hop, -⟩ := h _ _ _ _ hrun _ r hr
  obtain rfl := List.mem_singleton.mp hc
  cases hop

end Platform.Consensus
