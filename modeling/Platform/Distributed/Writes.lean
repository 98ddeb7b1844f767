import Platform.Distributed.Storage

/-!
# What an operation stores

An entry gets into the trees in two ways: an operation is committed, or an entry that another node
has committed is written directly.  Neither looks at the entry that is there already, and every
proposed entry has version 1.
-/

namespace Platform.Distributed
open Platform.Core Lib Chain List
open scoped Lib.Bytewise

/-! ## operations that store an entry -/

/-- the operation, if the votes it has carry it -/
def carried (totalValidators : UInt64) (op : Option WriteOp) : Option WriteOp :=
  op.filter fun op => op.checkConsensus totalValidators == some true

theorem carried_some {n : UInt64} {op : WriteOp} (h : op.checkConsensus n = some true) :
    carried n (some op) = some op := by
  simp [carried, h]

theorem carried_some_of_ne {n : UInt64} {op : WriteOp} (h : op.checkConsensus n ≠ some true) :
    carried n (some op) = none := by
  simp [carried, h]

/-- the operation that a call commits -/
def committedBy (C : Crypto) (compress : Bytes → Bytes) (s : DistributedStorage) :
    Nat × StorageOp → Option WriteOp
  | (now, .proposeWrite category challengeId key value ttlBlocks) =>
    carried s.totalValidators
      (s.proposeWrite C compress now category challengeId key value ttlBlocks).1.toOption
  | (now, .proposeWriteValidated category challengeId key value creatorStake validate) =>
    carried s.totalValidators
      (s.proposeWriteValidated C compress now category challengeId key value creatorStake
        validate).1.toOption
  | (_, .voteWrite opId validator approve) =>
    carried s.totalValidators ((s.pendingOps.lookup opId).map fun op => op.vote validator approve)
  | _ => none

/-- the entry that is written directly -/
def StorageOp.direct : StorageOp → Option StoredEntry
  | .writeDirect entry => some entry
  | _ => none

def stores (C : Crypto) (compress : Bytes → Bytes) (s : DistributedStorage)
    (input : Nat × StorageOp) : Option StoredEntry :=
  ((committedBy C compress s input).map WriteOp.committedEntry).or input.2.direct

structure Stored (now : Nat) (e : StoredEntry) (s s' : DistributedStorage) : Prop where
  data : s'.dataTree = s.dataTree.insert e.storageKey e
  index : s'.indexTree = DistributedStorage.updateIndexes e.header s.indexTree
  cache : s'.cache = s.cache.insert e.storageKey (e, now)

def CacheStored (s : DistributedStorage) : Prop :=
  ∀ {k e t}, s.cache.lookup k = some (e, t) → s.dataTree.get k = some e

structure Kept (s s' : DistributedStorage) : Prop where
  data : ∀ {k e}, s'.dataTree.get k = some e → s.dataTree.get k = some e
  index : s'.indexTree = s.indexTree
  cache : CacheStored s → CacheStored s'

/-- The entry was made by `StoredEntry::new`. -/
def Proposed (C : Crypto) (compress : Bytes → Bytes) (e : StoredEntry) : Prop :=
  ∃ category challengeId key value creator block ttlBlocks,
    StoredEntry.new C compress category challengeId key value creator block ttlBlocks = .ok e

section
variable {C : Crypto} {compress : Bytes → Bytes} {s s' : DistributedStorage} {now : Nat}
  {entry e : StoredEntry} {op : WriteOp} {id : Bytes32} {k : Bytes} {inp : Nat × StorageOp}

theorem Kept.of_eq (hdt : s'.dataTree = s.dataTree) (hix : s'.indexTree = s.indexTree)
    (hcc : s'.cache = s.cache) : Kept s s' where
  data := fun h => by rwa [hdt] at h
  index := hix
  cache := by
    intro h k e t hk
    rw [hcc] at hk
    rw [hdt]
    exact h hk

def Pends (C : Crypto) (compress : Bytes → Bytes) (s : DistributedStorage) (e : StoredEntry) :
    Prop :=
  Proposed C compress e ∨ ∃ id op, s.pendingOps.lookup id = some op ∧ op.entry = e

/-- What a call can do, by the operation that it commits and the entry that it writes directly. -/
inductive Effect (C : Crypto) (compress : Bytes → Bytes) (now : Nat) (s : DistributedStorage) :
    Option WriteOp → Option StoredEntry → DistributedStorage → Prop
  | committed (op : WriteOp) (pendingOps : HashMap Bytes32 WriteOp)
      (hop : Pends C compress s op.entry)
      (hpending : ∀ {id op}, pendingOps.lookup id = some op → s.pendingOps.lookup id = some op) :
      Effect C compress now s (some op) none
        (({ s with pendingOps := pendingOps }).commitWrite now op)
  | direct (e : StoredEntry) : Effect C compress now s none (some e) (s.writeDirect now e)
  | kept (s' : DistributedStorage) (h : Kept s s')
      (hpending : ∀ {id op}, s'.pendingOps.lookup id = some op → Pends C compress s op.entry) :
      Effect C compress now s none none s'

theorem Effect.same (hdt : s'.dataTree = s.dataTree) (hix : s'.indexTree = s.indexTree)
    (hcc : s'.cache = s.cache) (hp : s'.pendingOps = s.pendingOps) :
    Effect C compress now s none none s' := by
  refine .kept s' (.of_eq hdt hix hcc) ?_
  intro id op hop
  rw [hp] at hop
  exact .inr ⟨id, op, hop, rfl⟩

theorem Effect.pend (hop : Pends C compress s op.entry) :
    Effect C compress now s none none { s with pendingOps := s.pendingOps.insert id op } := by
  refine .kept _ (.of_eq rfl rfl rfl) ?_
  intro id' op' hop'
  rcases (HashMap.lookup_insert_iff _ _ _ _ _).mp hop' with ⟨_, rfl⟩ | ⟨_, hop'⟩
  · exact hop
  · exact .inr ⟨id', op', hop', rfl⟩

theorem Effect.propose (hen : Proposed C compress entry) :
    Effect C compress now s (carried s.totalValidators (some (s.propose C now entry).1)) none
      (s.propose C now entry).2 := by
  unfold DistributedStorage.propose
  dsimp only
  split
  · next hcr =>
    rw [carried_some hcr]
    exact .committed _ s.pendingOps (.inl hen) fun h => h
  · next ho =>
    rw [carried_some_of_ne ho]
    exact .pend (.inl hen)

theorem Effect.proposeWrite (cat : Category) (cid key : String) (val : Value)
    (ttl : Option UInt64) :
    Effect C compress now s
      (carried s.totalValidators
        (s.proposeWrite C compress now cat cid key val ttl).1.toOption) none
      (s.proposeWrite C compress now cat cid key val ttl).2 := by
  unfold DistributedStorage.proposeWrite
  split
  · exact .same rfl rfl rfl rfl
  · next entry hen => exact .propose ⟨_, _, _, _, _, _, _, hen⟩

theorem Effect.voteWrite (id : Bytes32) (who : String) (ap : Bool) :
    Effect C compress now s
      (carried s.totalValidators ((s.pendingOps.lookup id).map fun op => op.vote who ap)) none
      (s.voteWrite now id who ap).2 := by
  unfold DistributedStorage.voteWrite
  split
  · next hn =>
    rw [hn]
    exact .same rfl rfl rfl rfl
  · next op hop =>
    have hpn : Pends C compress s (op.vote who ap).entry :=
      .inr ⟨id, op, hop, (WriteOp.entry_vote op who ap).symm⟩
    have her : ∀ {id' op'}, (s.pendingOps.erase id).lookup id' = some op' →
        s.pendingOps.lookup id' = some op' := fun h =>
      ((HashMap.lookup_erase_iff _ _ _ _).mp h).2
    rw [hop, Option.map_some]
    dsimp only
    split
    · next ho =>
      rw [carried_some_of_ne (by rw [ho]; decide)]
      exact .pend hpn
    · next hcr =>
      rw [carried_some hcr]
      exact .committed _ _ hpn her
    · next hrj =>
      rw [carried_some_of_ne (by rw [hrj]; decide)]
      exact .kept _ (.of_eq rfl rfl rfl) fun h => .inr ⟨_, _, her h, rfl⟩

theorem kept_get (now : Nat) (s : DistributedStorage) (cat : Category)
    (cid key : String) : Kept s (s.get now cat cid key).2 := by
  unfold DistributedStorage.get
  dsimp only
  split
  · exact .of_eq rfl rfl rfl
  · split
    · exact .of_eq rfl rfl rfl
    · next entry hg =>
      refine ⟨fun h => h, rfl, ?_⟩
      intro hcc k e t hk
      rcases (HashMap.lookup_insert_iff _ _ _ _ _).mp hk with ⟨rfl, heq⟩ | ⟨_, hk⟩
      · cases heq
        exact hg
      · exact hcc hk

theorem pendingOps_get (now : Nat) (s : DistributedStorage) (cat : Category)
    (cid key : String) :
    (s.get now cat cid key).2.pendingOps = s.pendingOps := by
  unfold DistributedStorage.get
  dsimp only
  split
  · rfl
  · split
    · rfl
    · rfl

theorem kept_cleanupExpired (now : Nat) (s : DistributedStorage) :
    Kept s (s.cleanupExpired now).2 where
  data := OrdMap.get_of_foldl_erase
  index := rfl
  cache := by
    intro hcc k e t hk
    obtain ⟨hk, _⟩ := (HashMap.lookup_retain_iff _ _ _ _).mp hk
    obtain ⟨hnt, hk⟩ := (HashMap.lookup_foldl_erase_iff _ _ _ _).mp hk
    show (foldl OrdMap.erase s.dataTree _).get k = some e
    rw [OrdMap.get_foldl_erase, if_neg hnt]
    exact hcc hk

/-- **What one call does**, with the operation that it commits and the entry that it writes
directly. -/
theorem effect_next (C : Crypto) (compress : Bytes → Bytes) (s : DistributedStorage)
    (inp : Nat × StorageOp) :
    Effect C compress inp.1 s (committedBy C compress s inp) inp.2.direct
      (storageNext C compress s inp).2 := by
  obtain ⟨now, op⟩ := inp
  cases op with
  | setBlock block | setValidators count => exact .same rfl rfl rfl rfl
  | proposeWrite cat cid key val ttl => exact .proposeWrite cat cid key val ttl
  | proposeWriteValidated cat cid key val cs vd =>
    show Effect C compress now s (carried _ (Except.toOption _)) none _
    -- it fails and changes nothing, or is `propose_write`
    rw [storageNext]
    unfold DistributedStorage.proposeWriteValidated
    split
    · exact .same rfl rfl rfl rfl
    · split
      · exact .same rfl rfl rfl rfl
      · exact .proposeWrite cat cid key val none
  | voteWrite opId who ap => exact .voteWrite opId who ap
  | writeDirect entry => exact .direct entry
  | get cat cid key =>
    refine .kept _ (kept_get now s cat cid key) ?_
    intro id op hop
    rw [storageNext, pendingOps_get] at hop
    exact .inr ⟨id, op, hop, rfl⟩
  | cleanupExpired =>
    refine .kept _ (kept_cleanupExpired now s) ?_
    intro id op hop
    exact .inr ⟨id, op, ((HashMap.lookup_retain_iff _ _ _ _).mp hop).1, rfl⟩

/-- A call stores an entry, or keeps what is stored. -/
theorem stores_next (C : Crypto) (compress : Bytes → Bytes) (s : DistributedStorage)
    (inp : Nat × StorageOp) :
    (∀ {e}, stores C compress s inp = some e → Stored inp.1 e s (storageNext C compress s inp).2) ∧
      (stores C compress s inp = none → Kept s (storageNext C compress s inp).2) := by
  have hef := effect_next C compress s inp
  unfold stores
  generalize committedBy C compress s inp = committed at hef
  generalize inp.2.direct = written at hef
  generalize (storageNext C compress s inp).2 = s' at hef
  cases hef with
  | committed op ops _ _ | direct entry =>
    constructor
    · intro e h
      cases h
      exact ⟨rfl, rfl, rfl⟩
    · intro h
      cases h
  | kept s' hk _ =>
    constructor
    · intro e h
      cases h
    · exact fun _ => hk

/-! ## versions -/

theorem Proposed.version (h : Proposed C compress e) : e.header.version = 1 := by
  obtain ⟨cat, cid, key, val, cr, block, ttl, h⟩ := h
  unfold StoredEntry.new at h
  split at h
  · cases h
  · split at h
    · cases h
    · dsimp only at h
      split at h
      · cases h
      · cases h
        rfl

/-- Every pending operation is about an entry of `StoredEntry::new`. -/
def PendingProposed (C : Crypto) (compress : Bytes → Bytes) (s : DistributedStorage) : Prop :=
  ∀ {id op}, s.pendingOps.lookup id = some op → Proposed C compress op.entry

theorem PendingProposed.proposed (h : PendingProposed C compress s) (he : Pends C compress s e) :
    Proposed C compress e := by
  rcases he with he | ⟨id, op, hop, rfl⟩
  · exact he
  · exact h hop

theorem PendingProposed.effect {c : Option WriteOp} {d : Option StoredEntry}
    (h : PendingProposed C compress s) (hef : Effect C compress now s c d s') :
    PendingProposed C compress s' := by
  intro id op hop
  cases hef with
  | committed op' ops _ hp => exact h (hp hop)
  | direct e => exact h hop
  | kept _ _ hp => exact h.proposed (hp hop)

theorem PendingProposed.version_committed (h : PendingProposed C compress s)
    (hop : committedBy C compress s inp = some op) : op.committedEntry.header.version = 1 := by
  have hef := effect_next C compress s inp
  rw [hop] at hef
  generalize inp.2.direct = d at hef
  generalize (storageNext C compress s inp).2 = s' at hef
  cases hef with
  | committed _ _ hpn _ => exact (h.proposed hpn).version

def VersionsGrow (C : Crypto) (compress : Bytes → Bytes) (c : StorageCall) : Prop :=
  ∀ k e e', c.before.dataTree.get k = some e → c.after.dataTree.get k = some e' →
    e.header.version ≤ e'.header.version ∧
    ∀ op, committedBy C compress c.before c.input = some op → op.committedEntry.storageKey = k →
      e.header.version < e'.header.version

def OverwritesEarlier (C : Crypto) (compress : Bytes → Bytes) (c : StorageCall) : Prop :=
  (∀ op e, committedBy C compress c.before c.input = some op →
    c.before.dataTree.get op.committedEntry.storageKey = some e → e.header.version = 0) ∧
  ∀ entry e, c.input.2 = .writeDirect entry → c.before.dataTree.get entry.storageKey = some e →
    e.header.version ≤ entry.header.version

theorem direct_eq_some {op : StorageOp} : op.direct = some e ↔ op = .writeDirect e := by
  cases op <;> simp [StorageOp.direct]

theorem forall_put_iff {tree : OrdMap Bytes StoredEntry}
    {R : Bytes → StoredEntry → StoredEntry → Prop} (hR : ∀ k e₀, k ≠ e.storageKey → R k e₀ e₀) :
    (∀ k e₀ e', tree.get k = some e₀ → (tree.insert e.storageKey e).get k = some e' → R k e₀ e') ↔
      ∀ e₀, tree.get e.storageKey = some e₀ → R e.storageKey e₀ e := by
  constructor
  · intro h e₀ he₀
    exact h _ e₀ e he₀ (OrdMap.get_insert_self _ _ _)
  · intro h k e₀ e' he₀ he'
    by_cases hk : k = e.storageKey
    · subst hk
      rw [OrdMap.get_insert_self, Option.some_inj] at he'
      subst he'
      exact h e₀ he₀
    · rw [OrdMap.get_insert_of_ne _ hk, he₀, Option.some_inj] at he'
      subst he'
      exact hR k e₀ hk

theorem version_lt_one {v : UInt64} : v < 1 ↔ v = 0 := by
  constructor
  · intro h
    exact UInt64.toNat_inj.mp (Nat.lt_one_iff.mp h)
  · intro h
    rw [h]
    decide

theorem versionsGrow_iff {c : StorageCall} (h : PendingProposed C compress s)
    (hstep : CallStep (storageNext C compress) s c s') :
    VersionsGrow C compress c ↔ OverwritesEarlier C compress c := by
  have hef := effect_next C compress s c.input
  rw [← hstep.after_eq] at hef
  obtain ⟨hbf, ha, _⟩ := hstep
  have hv : ∀ op, committedBy C compress s c.input = some op →
      op.committedEntry.header.version = 1 := fun op hop => h.version_committed hop
  unfold VersionsGrow OverwritesEarlier
  rw [hbf, ha]
  simp only [← direct_eq_some]
  generalize committedBy C compress s c.input = committed at hef hv
  generalize c.input.2.direct = written at hef
  cases hef with
  | committed op ops _ _ =>
    have hon := hv op rfl
    refine (forall_put_iff ?_).trans ?_
    · intro k e₀ hk
      refine ⟨UInt64.le_refl _, ?_⟩
      intro op' hop hky
      cases hop
      exact absurd hky.symm hk
    · rw [hon]
      constructor
      · intro hg
        refine ⟨?_, fun entry e hn => nomatch hn⟩
        intro op' e₀ hop he₀
        cases hop
        exact version_lt_one.mp ((hg e₀ he₀).2 op rfl rfl)
      · intro hov e₀ he₀
        rw [hov.1 op e₀ rfl he₀]
        exact ⟨by decide, fun _ _ _ => by decide⟩
  | direct entry =>
    refine (forall_put_iff ?_).trans ?_
    · intro k e₀ _
      exact ⟨UInt64.le_refl _, fun op hn => nomatch hn⟩
    · constructor
      · intro hg
        refine ⟨(fun op e hn => nomatch hn), ?_⟩
        intro entry' e₀ hen he₀
        cases hen
        exact (hg e₀ he₀).1
      · intro hov e₀ he₀
        exact ⟨hov.2 entry e₀ rfl he₀, fun op hn => nomatch hn⟩
  | kept s' hkp _ =>
    constructor
    · intro _
      exact ⟨(fun op e hn => nomatch hn), fun entry e hn => nomatch hn⟩
    · intro _ k e e' hk hk'
      have heq := hkp.data hk'
      rw [hk, Option.some_inj] at heq
      subst heq
      exact ⟨UInt64.le_refl _, fun op hn => nomatch hn⟩

theorem versions_grow_run {who : String} {log : List StorageCall}
    (hrun : MachineRun (storageNext C compress) (.new who) log s) :
    ∀ c ∈ log, VersionsGrow C compress c ↔ OverwritesEarlier C compress c := by
  refine Run.labels (P := PendingProposed C compress) ?_ ?_ hrun
  · intro id op hop
    cases hop
  · intro s c s' h hstep
    refine ⟨versionsGrow_iff h hstep, ?_⟩
    rw [hstep.after_eq]
    exact h.effect (effect_next C compress s c.input)

/-! ## deliveries -/

/-- the entries delivered in this order, each at a time of the clock -/
def deliver (s : DistributedStorage) (l : List (Nat × StoredEntry)) : DistributedStorage :=
  l.foldl (fun s x => s.writeDirect x.1 x.2) s

theorem get_deliver {l : List (Nat × StoredEntry)} (hk : ∀ x ∈ l, x.2.storageKey = k)
    (s : DistributedStorage) :
    (deliver s l).dataTree.get k = ((l.map Prod.snd).getLast?).or (s.dataTree.get k) := by
  induction l using reverseRecOn with
  | nil => rfl
  | append_singleton l x ih =>
    have hx : x.2.storageKey = k := hk x (by simp)
    rw [deliver, foldl_append]
    show (OrdMap.insert _ x.2.storageKey x.2).get k = _
    rw [hx]
    simp

/-- Two nodes that get the entries in any two orders have the same entry under the key. -/
def Converges (k : Bytes) (es : List StoredEntry) (s s' : DistributedStorage) : Prop :=
  ∀ l l' : List (Nat × StoredEntry), (l.map Prod.snd).Perm es → (l'.map Prod.snd).Perm es →
    (deliver s l).dataTree.get k = (deliver s' l').dataTree.get k

theorem get_deliver_perm {es : List StoredEntry} (hk : ∀ e ∈ es, e.storageKey = k)
    {l : List (Nat × StoredEntry)} (hl : (l.map Prod.snd).Perm es) (s : DistributedStorage) :
    (deliver s l).dataTree.get k = ((l.map Prod.snd).getLast?).or (s.dataTree.get k) := by
  apply get_deliver
  intro x hx
  exact hk x.2 (hl.mem_iff.mp (mem_map_of_mem hx))

theorem not_converges {e e' : StoredEntry} {es : List StoredEntry} (hne : e ≠ e')
    (hk : ∀ x ∈ e :: e' :: es, x.storageKey = k) : ¬ Converges k (e :: e' :: es) s s' := by
  intro h
  -- the entries at the time 0
  have hat : ∀ l : List StoredEntry, (l.map fun e => (0, e)).map Prod.snd = l := by
    intro l
    rw [map_map]
    exact map_id l
  -- one order ends with the first entry, the other with the second one
  have hl : (((e' :: (es ++ [e])).map fun e => (0, e)).map Prod.snd).Perm (e :: e' :: es) := by
    rw [hat]
    exact ((perm_append_singleton e es).cons e').trans (.swap e e' es)
  have hl' : (((e :: (es ++ [e'])).map fun e => (0, e)).map Prod.snd).Perm (e :: e' :: es) := by
    rw [hat]
    exact (perm_append_singleton e' es).cons e
  have heq := h _ _ hl hl'
  rw [get_deliver_perm hk hl, get_deliver_perm hk hl', hat, hat, ← cons_append,
    ← cons_append, getLast?_concat, getLast?_concat, Option.some_or,
    Option.some_or, Option.some_inj] at heq
  exact hne heq

theorem converges_iff {es : List StoredEntry} (hes : es.Nodup)
    (hk : ∀ e ∈ es, e.storageKey = k) :
    Converges k es s s' ↔ (es = [] ∧ s.dataTree.get k = s'.dataTree.get k) ∨ es.length = 1 := by
  match es, hes with
  | [], _ =>
    constructor
    · intro h
      exact .inl ⟨rfl, h [] [] (.refl _) (.refl _)⟩
    · intro h l l' hl hl'
      have hnl : s.dataTree.get k = s'.dataTree.get k := by
        rcases h with ⟨_, h⟩ | h
        · exact h
        · cases h
      rw [get_deliver_perm hk hl, get_deliver_perm hk hl', hl.eq_nil, hl'.eq_nil]
      exact hnl
  | [e], _ =>
    refine iff_of_true (fun l l' hl hl' => ?_) (.inr rfl)
    rw [get_deliver_perm hk hl, get_deliver_perm hk hl', perm_singleton.mp hl,
      perm_singleton.mp hl']
    rfl
  | e :: e' :: es, hes =>
    have hne : e ≠ e' := by
      rintro rfl
      simp at hes
    refine iff_of_false (not_converges hne hk) ?_
    simp

/-- **Synced entries.**  Entries delivered in any two orders converge when there is at most one of
them, and versions grow along a run when nothing is overwritten that has a version already. -/
theorem synced_entries_iff {validator : String} {log : List StorageCall} {es : List StoredEntry}
    {s₁ s₂ : DistributedStorage} (hes : es.Nodup) (hkey : ∀ e ∈ es, e.storageKey = k)
    (hrun : MachineRun (storageNext C compress) (.new validator) log s) :
    (Converges k es s₁ s₂ ↔ (es = [] ∧ s₁.dataTree.get k = s₂.dataTree.get k) ∨ es.length = 1) ∧
    ((∀ c ∈ log, VersionsGrow C compress c) ↔ ∀ c ∈ log, OverwritesEarlier C compress c) := by
  refine ⟨converges_iff hes hkey, ?_⟩
  exact forall₂_congr (versions_grow_run hrun)

end

/-- a write of one byte that is proposed at a node and committed at once -/
def proposal (value : UInt8) : Nat × StorageOp :=
  (0, .proposeWrite .submission "c" "k" ⟨.ok [value], .ok [value]⟩ none)

def proposing (validator : String) (values : List UInt8) : DistributedStorage :=
  (trace (storageNext sampleCrypto id) (.new validator) (values.map proposal)).2

/-- One entry converges, and the first write of a key overwrites nothing. -/
theorem synced_entries_single :
    Converges sampleEntry.storageKey [sampleEntry] (.new "x") (.new "y") ∧
      ∀ c ∈ (trace (storageNext sampleCrypto id) (.new "a") [proposal 1]).1,
        VersionsGrow sampleCrypto id c := by
  have hk : ∀ e ∈ [sampleEntry], e.storageKey = sampleEntry.storageKey := by
    intro e he
    rw [mem_singleton.mp he]
  have hrun := machineRun_trace (storageNext sampleCrypto id) (.new "a") [proposal 1]
  obtain ⟨hcn, hg⟩ := synced_entries_iff (nodup_singleton sampleEntry) hk hrun
  refine ⟨hcn.mpr (.inr rfl), hg.mpr ?_⟩
  intro c hc
  cases mem_singleton.mp hc
  refine ⟨?_, ?_⟩
  · intro op e _ hgt
    cases hgt
  · intro entry e hdr
    cases hdr

/-- The entries of two validators for one key end up in the order of their arrival, and a second
committed write keeps version 1. -/
theorem deliveries_diverge :
    ∃ e e', (proposing "a" [1]).stored .submission "c" "k" = some e ∧
      (proposing "b" [2]).stored .submission "c" "k" = some e' ∧
      (deliver (.new "x") [(0, e), (0, e')]).stored .submission "c" "k" ≠
        (deliver (.new "y") [(0, e'), (0, e)]).stored .submission "c" "k" ∧
      ((proposing "a" [1]).stored .submission "c" "k").map (fun e => e.header.version) = some 1 ∧
      ((proposing "a" [1, 2]).stored .submission "c" "k").map (fun e => e.header.version) = some 1 ∧
      (proposing "a" [1, 2]).stored .submission "c" "k" ≠
        (proposing "a" [1]).stored .submission "c" "k" := by
  refine ⟨_, _, rfl, rfl, ?_⟩
  decide +kernel

end Platform.Distributed
