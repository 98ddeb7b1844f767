import Platform.Storage.Coherence

/-!
# Conditional puts

`expected_version` is compared with the version in the entry.  The version goes with its entry, so
a key that is deleted and put again counts from 1 once more.
-/

namespace Platform.Storage
open Platform.Core Lib Chain
open scoped Lib.Bytewise

variable (s : LocalStorage) (op : LocalOp)

def LocalStorage.versionAt (b : Bytes) : Option UInt64 :=
  (s.data.get b).map fun e => e.value.metadata.version

/-- the version that an answer shows -/
def LocalOut.version : LocalOut → Option UInt64
  | .metadata m => some m.version
  | .value v => v.map fun v => v.metadata.version
  | .deleted _ | .marked => none

/-- The caller sees the version `v`: in the value of a get or in the metadata of a put. -/
def Observes (c : LocalCall) (v : UInt64) : Prop := ∃ o, c.out = .ok o ∧ o.version = some v

instance (c : LocalCall) (v : UInt64) : Decidable (Observes c v) :=
  match h : c.out with
  | .ok o => decidable_of_iff (o.version = some v)
      ⟨fun hv => ⟨o, h, hv⟩, fun ⟨_, ho, hv⟩ => Except.ok.inj (h.symm.trans ho) ▸ hv⟩
  | .error _ => isFalse fun ⟨_, ho, _⟩ => nomatch h.symm.trans ho

/-- A put that is counted: the next version can be written. -/
def Countable : Prop :=
  op.written.isSome = true → ∀ v, s.versionAt op.key.toBytes = some v → v.toNat + 1 < 2 ^ 64

instance : Decidable (Countable s op) :=
  match h : s.versionAt op.key.toBytes with
  | none => isTrue fun _ _ hv => nomatch h.symm.trans hv
  | some v => decidable_of_iff (op.written.isSome = true → v.toNat + 1 < 2 ^ 64)
      ⟨fun hv hop _ hw => Option.some.inj (h.symm.trans hw) ▸ hv hop, fun hv hop => hv hop v h⟩

/-- A put that replaces an entry. -/
def Replaces : Prop :=
  op.written.isSome = true → s.versionAt op.key.toBytes ≠ none

instance : Decidable (Replaces s op) :=
  inferInstanceAs (Decidable (_ → s.versionAt op.key.toBytes ≠ none))

def LeavesAlone (b : Bytes) (c : LocalCall) : Prop :=
  c.input.2.rewrites = true → c.input.2.key.toBytes = b → ∃ err, c.out = .error err

/-- the version that a put makes of the one before it -/
def nextVersion : Option UInt64 → UInt64
  | some v => v + 1
  | none => 1

section
variable {C : Crypto} {s s' : LocalStorage} {now : Int64} {op : LocalOp} {k : StorageKey}
  {b val : Bytes} {opts : PutOptions} {bid : Option UInt64} {v : UInt64}

theorem toNat_nextVersion (h : v.toNat + 1 < 2 ^ 64) :
    (nextVersion (some v)).toNat = v.toNat + 1 := by
  show (v + 1).toNat = _
  exact Nat.mod_eq_of_lt h

theorem versionAt_written_self (old : Option LocalEntry) (e : LocalEntry) :
    (s.written C k old e).versionAt k.toBytes = some e.value.metadata.version := by
  show ((s.data.insert k.toBytes e).get k.toBytes).map _ = _
  rw [OrdMap.get_insert_self]
  rfl

theorem versionAt_removed_self (e : LocalEntry) : (s.removed C k e).versionAt k.toBytes = none := by
  show ((s.data.erase k.toBytes).get k.toBytes).map _ = _
  rw [OrdMap.get_erase_self]
  rfl

/-! ## one call -/

theorem key_of_written (hop : op.written = some (k, val, opts, bid)) : op.key = k := by
  cases op with
  | put | putWithBlock =>
    cases hop
    rfl
  | get | delete | markReplicated => cases hop

theorem versionAt_put (C : Crypto) (s : LocalStorage) (now : Int64)
    (hop : op.written = some (k, val, opts, bid)) :
    (∃ err, localNext C s (now, op) = (.error err, s)) ∨
    ∃ m, (localNext C s (now, op)).1 = .ok (.metadata m) ∧
      (localNext C s (now, op)).2.versionAt k.toBytes = some m.version ∧
      m.version = nextVersion (s.versionAt k.toBytes) := by
  rcases next_put_cases C s now hop with hfl | ⟨-, h⟩
  · exact .inl hfl
  · rw [h]
    refine .inr ⟨_, rfl, versionAt_written_self _ _, ?_⟩
    rw [LocalStorage.versionAt]
    unfold LocalStorage.entryFor LocalStorage.storedFor
    cases s.data.get k.toBytes <;> (simp only; split <;> rfl)

theorem versionAt_delete (C : Crypto) (s : LocalStorage) (now : Int64) (k : StorageKey) :
    (localNext C s (now, .delete k)).2.versionAt k.toBytes = none := by
  show (settle s _ (s.deleteEntry C k)).2.versionAt _ = _
  cases hr : s.data.get k.toBytes with
  | some e =>
    rw [deleteEntry_of_some hr]
    exact versionAt_removed_self e
  | none =>
    rw [LocalStorage.deleteEntry, LocalStorage.getEntry, hr]
    show (s.data.get k.toBytes).map _ = none
    rw [hr]
    rfl

theorem Effect.versionAt_of_quiet {c : Int64 × LocalOp} (h : Effect C s c s')
    (hop : c.2.rewrites = false) :
    s'.versionAt c.2.key.toBytes = s.versionAt c.2.key.toBytes ∨
      s'.versionAt c.2.key.toBytes = none := by
  cases h with
  | same => exact .inl rfl
  | put _ _ | putWithBlock _ _ | delete _ => cases hop
  | expired _ _ => exact .inr (versionAt_removed_self _)
  | @markReplicated _ k _ e hr =>
    refine .inl ?_
    show (s.written C k _ _).versionAt k.toBytes = (s.data.get k.toBytes).map _
    rw [versionAt_written_self, hr]
    rfl

/-- **All that a call can do to the version at `b`**: keep it, and then it is no put or delete
there that succeeded; remove it; or count it up. -/
theorem versionAt_cases {c : LocalCall} (h : CallStep (localNext C) s c s') (b : Bytes) :
    (s'.versionAt b = s.versionAt b ∧ LeavesAlone b c) ∨ s'.versionAt b = none ∨
    (c.input.2.written.isSome = true ∧ c.input.2.key.toBytes = b ∧
      s'.versionAt b = some (nextVersion (s.versionAt b))) := by
  obtain ⟨pre, ⟨now, op⟩, out, after⟩ := c
  have ho : out = (localNext C s (now, op)).1 := h.out_eq
  have ha : s' = (localNext C s (now, op)).2 := h.after_eq
  have hef : Effect C s (now, op) s' := ha ▸ effect_of_next C s (now, op)
  by_cases hb : op.key.toBytes = b
  · subst hb
    cases hop : op.written with
    | some w =>
      have hk := key_of_written hop
      rcases versionAt_put C s now hop with ⟨err, hnx⟩ | ⟨m, -, hvr, hm⟩
      · rw [hnx] at ho ha
        exact .inl ⟨congrArg (fun s : LocalStorage => s.versionAt _) ha, fun _ _ => ⟨err, ho⟩⟩
      · refine .inr (.inr ⟨rfl, rfl, ?_⟩)
        rw [ha, hk, hvr, hm]
    | none =>
      cases op with
      | put | putWithBlock => cases hop
      | delete k => exact .inr (.inl (ha ▸ versionAt_delete C s now k))
      | get | markReplicated =>
        rcases hef.versionAt_of_quiet rfl with hsame | hg
        · exact .inl ⟨hsame, fun hrw => absurd hrw Bool.false_ne_true⟩
        · exact .inr (.inl hg)
  · refine .inl ⟨?_, fun _ hk => absurd hk hb⟩
    show (s'.data.get b).map _ = (s.data.get b).map _
    rw [hef.data_of_ne (Ne.symm hb)]

/-! ## whole runs -/

def CountedFromOne (b : Bytes) (s : LocalStorage) : Prop := ∀ v, s.versionAt b = some v → v ≠ 0

theorem countedFromOne_inMemory (b : Bytes) (nid : String) : CountedFromOne b (.inMemory nid) :=
  fun _ h => absurd h (Option.some_ne_none _).symm

theorem CountedFromOne.step {c : LocalCall} (hs : CountedFromOne b s)
    (hc : c.input.2.key.toBytes = b → Countable c.before c.input.2)
    (h : CallStep (localNext C) s c s') : CountedFromOne b s' := by
  intro v hv
  rcases versionAt_cases h b with ⟨hsa, -⟩ | hnone | ⟨hpt, hk, hnx⟩
  · exact hs v (hsa ▸ hv)
  · rw [hnone] at hv
    cases hv
  · rw [hnx] at hv
    obtain rfl := Option.some_inj.mp hv
    cases ho : s.versionAt b with
    | none => exact (by decide : (1 : UInt64) ≠ 0)
    | some old =>
      have hsm := hc hk hpt old (by rw [h.1, hk, ho])
      intro hz
      have hnt := toNat_nextVersion hsm
      rw [hz] at hnt
      exact absurd hnt.symm (Nat.succ_ne_zero _)

/-- The version at `b` since `v` was seen there: the entry is gone, has been put again, or nothing
has happened to it in the calls `l`. -/
def Undisturbed (b : Bytes) (v : UInt64) (l : List LocalCall) (s : LocalStorage) : Prop :=
  s.versionAt b = none ∨ (∃ w, s.versionAt b = some w ∧ v.toNat < w.toNat) ∨
    (s.versionAt b = some v ∧ ∀ x ∈ l, LeavesAlone b x)

theorem Undisturbed.step {l : List LocalCall} {c : LocalCall} (hs : Undisturbed b v l s)
    (hcn : c.input.2.key.toBytes = b → Countable c.before c.input.2)
    (hrp : c.input.2.key.toBytes = b → Replaces c.before c.input.2)
    (h : CallStep (localNext C) s c s') : Undisturbed b v (l ++ [c]) s' := by
  rcases versionAt_cases h b with ⟨hsa, ha⟩ | hnone | ⟨hpt, hk, hnx⟩
  · rcases hs with hs | ⟨w, hw, hlt⟩ | ⟨hv, hl⟩
    · exact .inl (hsa.trans hs)
    · exact .inr (.inl ⟨w, hsa.trans hw, hlt⟩)
    · refine .inr (.inr ⟨hsa.trans hv, fun x hx => ?_⟩)
      rcases List.mem_append.mp hx with hx | hx
      · exact hl x hx
      · rw [List.mem_singleton.mp hx]
        exact ha
  · exact .inl hnone
  · -- a put that replaced an entry, so the version is now larger
    have hg : ∀ w, s.versionAt b = some w → v.toNat ≤ w.toNat → Undisturbed b v (l ++ [c]) s' := by
      intro w hw hle
      have hsm := hcn hk hpt w (by rw [h.1, hk, hw])
      refine .inr (.inl ⟨_, hnx, ?_⟩)
      rw [hw, toNat_nextVersion hsm]
      omega
    rcases hs with hs | ⟨w, hw, hlt⟩ | ⟨hv, -⟩
    · exact absurd (by rw [h.1, hk, hs]) (hrp hk hpt)
    · exact hg w hw hlt.le
    · exact hg v hv le_rfl

theorem Undisturbed.run {l : List LocalCall} (hv : s.versionAt b = some v)
    (hrun : MachineRun (localNext C) s l s')
    (hcn : ∀ x ∈ l, x.input.2.key.toBytes = b → Countable x.before x.input.2)
    (hrp : ∀ x ∈ l, x.input.2.key.toBytes = b → Replaces x.before x.input.2) :
    Undisturbed b v l s' := by
  refine Run.logInvariant
    (.inr (.inr ⟨hv, fun x hx => absurd hx List.not_mem_nil⟩)) ?_
    (hrun.restrict fun x hx => And.intro (hcn x hx) (hrp x hx))
  rintro l s₁ x s₂ - hiv ⟨hstep, hct, hrl⟩
  exact hiv.step hct hrl hstep

theorem versionAt_of_observes {c : LocalCall} (h : CallStep (localNext C) s c s')
    (hob : Observes c v) : s'.versionAt c.input.2.key.toBytes = some v := by
  obtain ⟨o, ho, hv⟩ := hob
  obtain ⟨pre, ⟨now, op⟩, out, after⟩ := c
  have hnx : localNext C s (now, op) = (.ok o, s') := h.2.2.trans (Prod.ext ho rfl)
  show s'.versionAt op.key.toBytes = some v
  cases hop : op.written with
  | some w =>
    rw [key_of_written hop]
    rcases versionAt_put C s now hop with ⟨err, hfl⟩ | ⟨m, hm, hvr, -⟩
    · rw [hfl] at hnx
      cases hnx
    · rw [hnx] at hm hvr
      cases hm
      exact hvr.trans hv
  | none =>
    cases op with
    | put | putWithBlock => cases hop
    | delete k =>
      exfalso
      have hfs : (settle s LocalOut.deleted (s.delete C k)).1 = .ok o := congrArg Prod.fst hnx
      cases hd : s.delete C k <;> (rw [hd] at hfs; cases hfs)
      cases hv
    | markReplicated k nid =>
      exfalso
      have hfs : (settle s (fun _ : Unit => LocalOut.marked)
        ((s.markReplicated C now k nid).map fun s' => ((), s'))).1 = .ok o :=
        congrArg Prod.fst hnx
      cases hd : s.markReplicated C now k nid <;> (rw [hd] at hfs; cases hfs)
      cases hv
    | get k =>
      have hg : settle s LocalOut.value (s.get C now k) = (.ok o, s') := hnx
      cases hr : s.data.get k.toBytes with
      | none =>
        rw [get_of_none C hr] at hg
        cases hg
        cases hv
      | some e =>
        rw [get_of_some C hr] at hg
        split at hg
        · cases hg
          cases hv
        · cases hg
          show (s.data.get k.toBytes).map _ = _
          rw [hr]
          exact hv

theorem versionAt_of_conditional (hop : op.written = some (k, val, opts, bid))
    (hex : opts.expectedVersion = some v) (hv : v ≠ 0) {m : LocalOut}
    (hok : (localNext C s (now, op)).1 = .ok m) : s.versionAt k.toBytes = some v := by
  rcases next_put_cases C s now hop with ⟨err, hfl⟩ | ⟨hvr, -⟩
  · rw [hfl] at hok
    cases hok
  · rw [hex] at hvr
    show (s.data.get k.toBytes).map _ = _
    cases hg : s.data.get k.toBytes with
    | none =>
      rw [hg] at hvr
      change (if v ≠ 0 then _ else _) = _ at hvr
      rw [if_pos hv] at hvr
      cases hvr
    | some e =>
      rw [hg] at hvr
      change (if e.value.metadata.version ≠ v then _ else _) = _ at hvr
      split at hvr
      · cases hvr
      · next hne => exact congrArg some (not_not.mp hne)

end

/-- **Optimistic concurrency.**  After the call `o` has shown the version `v` of a key, a put `p`
that expects `v` succeeds only if no put and no delete of the key has succeeded in between, and it
changes nothing if it fails: if no put in between finds the key without an entry, and no put of the
key up to then finds the largest version. -/
theorem optimistic_concurrency {C : Crypto} {nodeId : String} {s : LocalStorage}
    {l₁ l₂ : List LocalCall} {o p : LocalCall} {k : StorageKey} {value : Bytes}
    {options : PutOptions} {blockId : Option UInt64} {v : UInt64}
    (hrun : MachineRun (localNext C) (.inMemory nodeId) (l₁ ++ o :: (l₂ ++ [p])) s)
    (hkey : o.input.2.key = k) (hobs : Observes o v)
    (hput : p.input.2.written = some (k, value, options, blockId))
    (hexpected : options.expectedVersion = some v)
    (hcount : ∀ x ∈ l₁ ++ o :: l₂, x.input.2.key.toBytes = k.toBytes → Countable x.before x.input.2)
    (hreplace : ∀ x ∈ l₂, x.input.2.key.toBytes = k.toBytes → Replaces x.before x.input.2) :
    (∀ m, p.out = .ok m → ∀ x ∈ l₂, LeavesAlone k.toBytes x) ∧
    (∀ err, p.out = .error err → p.after = p.before) := by
  obtain ⟨s₁, hbf, hfr⟩ := hrun.split
  obtain ⟨s₂, ho, ha⟩ := hfr.head
  obtain ⟨s₃, hbt, hp⟩ := ha.snoc_inv
  have hon : CountedFromOne k.toBytes s₂ := by
    have hsr : CountedFromOne k.toBytes s₁ :=
      Run.guarded (countedFromOne_inMemory _ nodeId) (fun _ _ _ hs hc h => hs.step hc h) hbf
        fun x hx => hcount x (List.mem_append_left _ hx)
    exact hsr.step (hcount o (List.mem_append_right _ List.mem_cons_self)) ho
  have hv : s₂.versionAt k.toBytes = some v := hkey ▸ versionAt_of_observes ho hobs
  have hen := Undisturbed.run hv hbt
    (fun x hx => hcount x (List.mem_append_right _ (List.mem_cons_of_mem _ hx))) hreplace
  obtain ⟨pre, ⟨now, op⟩, out, after⟩ := p
  constructor
  · intro m hok
    have hfn := versionAt_of_conditional hput hexpected (hon v hv) (hp.out_eq ▸ hok)
    rcases hen with hnone | ⟨w, hw, hlt⟩ | ⟨-, hal⟩
    · rw [hnone] at hfn
      cases hfn
    · rw [hw] at hfn
      obtain rfl := Option.some_inj.mp hfn
      exact absurd hlt (lt_irrefl _)
    · exact hal
  · intro err her
    have hot : (localNext C s₃ (now, op)).1 = .error err := hp.out_eq ▸ her
    rcases next_put_cases C s₃ now hput with ⟨_, hfl⟩ | ⟨-, hok⟩
    · rw [show after = _ from hp.2.1, show pre = _ from hp.1, hp.after_eq]
      exact congrArg Prod.snd hfl
    · rw [hok] at hot
      cases hot

def conditionalSample : List (Int64 × LocalOp) :=
  [(0, .put ⟨"a", [1]⟩ [7] .default), (1, .get ⟨"a", [1]⟩),
    (2, .put ⟨"a", [1]⟩ [8] ⟨false, 0, some 5⟩), (3, .put ⟨"b", [1]⟩ [8] .default),
    (4, .put ⟨"a", [1]⟩ [9] ⟨false, 0, some 1⟩)]

def conditionalCalls : List LocalCall :=
  (trace (localNext sampleCrypto) (.inMemory "node") conditionalSample).1

theorem optimistic_concurrency_sample :
    (conditionalCalls.map fun x => x.out.isOk) = [true, true, false, true, true] ∧
    ∀ x ∈ (conditionalCalls.drop 2).take 2, LeavesAlone (StorageKey.toBytes ⟨"a", [1]⟩) x := by
  have hlw := (@optimistic_concurrency sampleCrypto "node" _ (conditionalCalls.take 1)
    ((conditionalCalls.drop 2).take 2) _ _ ⟨"a", [1]⟩ [9] ⟨false, 0, some 1⟩ none 1
    (machineRun_trace _ _ conditionalSample) rfl (by decide +kernel) rfl rfl (by decide +kernel)
    (by decide +kernel)).1
  exact ⟨by decide +kernel, (exists_of_isOk (by decide +kernel)).elim hlw⟩

/-- Put, deleted and put again: the version 1 of the first put is accepted. -/
theorem version_comes_back :
    ¬ ∀ (C : Crypto) (nodeId : String) (s : LocalStorage) (l₁ l₂ : List LocalCall)
      (o p : LocalCall) (k : StorageKey) (value : Bytes) (options : PutOptions)
      (blockId : Option UInt64) (v : UInt64),
      MachineRun (localNext C) (.inMemory nodeId) (l₁ ++ o :: (l₂ ++ [p])) s →
      (∀ x ∈ l₁ ++ o :: (l₂ ++ [p]), x.input.2.key = k) → Observes o v →
      p.input.2.written = some (k, value, options, blockId) → options.expectedVersion = some v →
      ∀ m, p.out = .ok m → ∀ x ∈ l₂, LeavesAlone k.toBytes x := by
  intro h
  let ops : List (Int64 × LocalOp) :=
    [(0, .put ⟨"a", [1]⟩ [7] .default), (1, .delete ⟨"a", [1]⟩), (2, .put ⟨"a", [1]⟩ [8] .default),
      (3, .put ⟨"a", [1]⟩ [9] ⟨false, 0, some 1⟩)]
  let calls : List LocalCall := (trace (localNext sampleCrypto) (.inMemory "node") ops).1
  have hlw := h sampleCrypto "node" _ [] ((calls.drop 1).take 2) _ _ ⟨"a", [1]⟩ [9]
    ⟨false, 0, some 1⟩ none 1 (machineRun_trace _ _ ops) (by decide +kernel) (by decide +kernel)
    rfl rfl
  have ha := (exists_of_isOk (by decide +kernel)).elim hlw
  obtain ⟨err, her⟩ := ha _ List.mem_cons_self rfl rfl
  have hfl : (calls.map Call.out)[1]? = some (.error err) := congrArg some her
  cases hfl

end Platform.Storage
