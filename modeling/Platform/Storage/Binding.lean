import Platform.Storage.Proofs
import Platform.Storage.Rebuild

/-!
# What a state root says about the content

A leaf is the hash of the bytes of a record; neither its key nor its category is part of it.
-/

namespace Platform.Storage
open Platform.Core Lib Chain List OrdMap
open scoped Lib.Bytewise

/-! ## places of records -/

/-- the place of a record: its category and its key there -/
inductive Slot where
  | submission (key : Bytes)
  | evaluation (key : Bytes)
  | weights (epoch : Nat)
deriving DecidableEq

def Slot.bytes (id : String) : Slot → Bytes
  | .submission key => area "submissions" id ++ key
  | .evaluation key => area "evaluations" id ++ key
  | .weights epoch => area "weights" id ++ utf8 (toString epoch)

def LeafCache.leafAt (cache : LeafCache) : Slot → Option Bytes32
  | .submission key => cache.submissions.get key
  | .evaluation key => cache.evaluations.get key
  | .weights epoch => cache.weights.get epoch

def StoreOp.slot {sub ev wts : Type} : StoreOp sub ev wts → Slot
  | .submission hash _ => .submission (utf8 hash)
  | .evaluation submissionHash validator _ =>
    .evaluation (utf8 (submissionHash ++ ":" ++ validator))
  | .weights epoch _ => .weights epoch.toNat

theorem Slot.bytes_inj {id : String} {a b : Slot} (h : a.bytes id = b.bytes id) : a = b := by
  have hfr := colonFree_of_category
  have hct : ∀ {c c' : String} {x y : Bytes}, c ∈ categories → c' ∈ categories →
      area c id ++ x = area c' id ++ y → c = c' := by
    intro c c' x y hc hc' heq
    exact area_category (hfr c hc) (hfr c' hc') (prefix_append _ x) (heq ▸ prefix_append _ y)
  cases a with
  | submission k =>
    cases b with
    | submission k' => exact congrArg Slot.submission (append_cancel_left h)
    | evaluation k' | weights n' => exact absurd (hct (by decide) (by decide) h) (by decide)
  | evaluation k =>
    cases b with
    | submission k' | weights n' => exact absurd (hct (by decide) (by decide) h) (by decide)
    | evaluation k' => exact congrArg Slot.evaluation (append_cancel_left h)
  | weights n =>
    cases b with
    | submission k' | evaluation k' => exact absurd (hct (by decide) (by decide) h) (by decide)
    | weights n' =>
      have ht : toString n = toString n' := utf8_inj (append_cancel_left h)
      rw [Nat.toString_eq_ofList_toDigits, Nat.toString_eq_ofList_toDigits, String.ofList_inj] at ht
      rw [← @Nat.ofDigitChars_ten_toDigits n, ht, Nat.ofDigitChars_ten_toDigits]

section
variable {sub ev wts : Type}

theorem StoreOp.toBytes_key (st : ChallengeStore) (op : StoreOp sub ev wts) :
    (op.key st).toBytes = op.slot.bytes st.challengeId := by
  cases op with
  | submission hash data => exact toBytes_keyIn "submissions" st.challengeId hash
  | evaluation submissionHash who eval =>
    exact toBytes_keyIn "evaluations" st.challengeId (submissionHash ++ ":" ++ who)
  | weights ep w => exact toBytes_keyIn "weights" st.challengeId (toString ep.toNat)

theorem leafAt_insertLeaf_self (op : StoreOp sub ev wts) (h : Bytes32) (cache : LeafCache) :
    (op.insertLeaf h cache).leafAt op.slot = some h := by
  cases op with
  | submission hash data | evaluation submissionHash validator eval | weights ep w =>
    exact get_insert_self _ _ _

theorem leafAt_insertLeaf_of_ne {op : StoreOp sub ev wts} {slot : Slot} (hne : slot ≠ op.slot)
    (h : Bytes32) (cache : LeafCache) :
    (op.insertLeaf h cache).leafAt slot = cache.leafAt slot := by
  cases op with
  | submission hash data =>
    cases slot with
    | submission k => exact get_insert_of_ne _ (fun hk => hne (congrArg _ hk)) _
    | evaluation k => rfl
    | weights n => rfl
  | evaluation submissionHash who eval =>
    cases slot with
    | submission k => rfl
    | evaluation k => exact get_insert_of_ne _ (fun hk => hne (congrArg _ hk)) _
    | weights n => rfl
  | weights ep w =>
    cases slot with
    | submission k => rfl
    | evaluation k => rfl
    | weights n => exact get_insert_of_ne _ (fun hk => hne (congrArg _ hk)) _

end

/-! ## the cache and the storage -/

/-- The leaves are the hashes of what is stored, place by place, and each comes from a call. -/
structure Bound (C : Crypto) (sub ev wts : Type) (id : String)
    (t : LocalStorage × ChallengeStore) : Prop where
  id_eq : t.2.challengeId = id
  leaf : ∀ slot, t.2.leafCache.leafAt slot =
    (t.1.data.get (slot.bytes id)).map fun e => hashBytes C e.value.data
  named : ∀ slot h, t.2.leafCache.leafAt slot = some h →
    ∃ op : StoreOp sub ev wts, op.slot = slot

section
variable {sub ev wts : Type} {C : Crypto} {R : Records sub ev wts} {id : String}
  {s : LocalStorage} {t : LocalStorage × ChallengeStore}

theorem leafAt_new (slot : Slot) : LeafCache.new.leafAt slot = none := by
  cases slot <;> rfl

theorem bound_of_unused (h : Unused id s) : Bound C sub ev wts id (s, .new id) where
  id_eq := rfl
  leaf := by
    have hem : ∀ category ∈ categories, ∀ key,
        s.data.get (area category id ++ key) = none := fun category hc key =>
      (h category hc _ (prefix_append _ _)).1
    intro slot
    cases slot with
    | submission key | evaluation key => exact congrArg (Option.map _) (hem _ (by decide) key).symm
    | weights epoch => exact congrArg (Option.map _) (hem _ (by decide) _).symm
  named := by
    intro slot h hlf
    rw [show (ChallengeStore.new id).leafCache.leafAt slot = none from leafAt_new slot] at hlf
    cases hlf

theorem localStore_put_cases (C : Crypto) (now : Int64) (s : LocalStorage) (k : StorageKey)
    (val : Bytes) (opts : PutOptions) :
    (∃ err, (localStore C).put now s k val opts = (.error err, s)) ∨
    ∃ m old e, e.value.data = val ∧
      (localStore C).put now s k val opts = (.ok m, s.written C k old e) := by
  rcases putValue_cases C now s k val opts none with ⟨err, h⟩ | ⟨old, -, -, h⟩
  · exact .inl ⟨err, congrArg (orSame s) h⟩
  · exact .inr ⟨_, old, _, data_storedFor C now s.nodeId old val opts, congrArg (orSame s) h⟩

/-- **One call.** -/
theorem Bound.step (ht : Bound C sub ev wts id t) (now : Int64) (op : StoreOp sub ev wts) :
    Bound C sub ev wts id (challengeNext C (localStore C) R t (now, op)).2 := by
  rcases challengeNext_cases C (localStore C) R t now op with
    ⟨err, -, hnx⟩ | ⟨data, -, ⟨err, hpt, hnx⟩ | ⟨m, i, hpt, -, hnx⟩⟩
  · rw [hnx]
    exact ht
  · rcases localStore_put_cases C now t.1 (op.key t.2) data .default with
      ⟨err', h⟩ | ⟨_, _, _, -, h⟩
    · rw [hnx, h]
      exact ht
    · rw [h] at hpt
      cases hpt
  · rcases localStore_put_cases C now t.1 (op.key t.2) data .default with
      ⟨err, h⟩ | ⟨m', existing, e, hdt, h⟩
    · rw [h] at hpt
      cases hpt
    · rw [hnx, h]
      have hby : (op.key t.2).toBytes = op.slot.bytes id := by rw [op.toBytes_key, ht.id_eq]
      refine ⟨ht.id_eq, fun slot => ?_, fun slot h hlf => ?_⟩
      · show (op.insertLeaf (hashBytes C data) t.2.leafCache).leafAt slot =
          ((t.1.data.insert (op.key t.2).toBytes e).get (slot.bytes id)).map _
        rw [hby]
        by_cases hsl : slot = op.slot
        · rw [hsl, leafAt_insertLeaf_self, get_insert_self, ← hdt]
          rfl
        · rw [leafAt_insertLeaf_of_ne hsl, get_insert_of_ne _ fun heq => hsl (Slot.bytes_inj heq)]
          exact ht.leaf slot
      · by_cases hsl : slot = op.slot
        · exact ⟨op, hsl.symm⟩
        · refine ht.named slot h ?_
          rw [← leafAt_insertLeaf_of_ne hsl (hashBytes C data)]
          exact hlf

/-- **All calls.** -/
theorem bound_of_run (hu : Unused id s) {l : List (StoreCall sub ev wts)}
    (hrun : MachineRun (challengeNext C (localStore C) R) (s, .new id) l t) :
    Bound C sub ev wts id t := by
  refine Run.invariant (bound_of_unused hu) ?_ hrun
  rintro t ⟨pre, ⟨now, op⟩, out, after⟩ t' ht hstep
  rw [hstep.after_eq]
  exact ht.step now op

end

/-! ## equal roots -/

def heldAt {sub ev wts : Type} (t : LocalStorage × ChallengeStore) (op : StoreOp sub ev wts) :
    Option Bytes := (t.1.data.get (op.key t.2).toBytes).map fun e => e.value.data

def hashedData (C : Crypto) (t : LocalStorage × ChallengeStore) : List Bytes :=
  (t.1.data.values.map fun e => e.value.data) ++
    (Merkle.combined (hashPair C) t.2.leafCache.allLeaves.length t.2.leafCache.allLeaves).map
      fun p => p.1.bytes ++ p.2.bytes

section
variable {sub ev wts : Type} {C : Crypto} {id : String} {t t' : LocalStorage × ChallengeStore}

theorem mem_hashedData {op : StoreOp sub ev wts} {data : Bytes} (h : heldAt t op = some data) :
    data ∈ hashedData C t := by
  obtain ⟨e, he, rfl⟩ := Option.map_eq_some_iff.mp h
  refine mem_append_left _ (mem_map.mpr ⟨e, ?_, rfl⟩)
  exact mem_map.mpr ⟨_, get_eq_some.mp he, rfl⟩

theorem Bound.held (ht : Bound C sub ev wts id t) (op : StoreOp sub ev wts) :
    t.2.leafCache.leafAt op.slot = (heldAt t op).map (hashBytes C) := by
  rw [ht.leaf, heldAt, op.toBytes_key, ht.id_eq, Option.map_map]
  rfl

theorem Bound.isSome_leafAt (ht : Bound C sub ev wts id t) (ht' : Bound C sub ev wts id t')
    (hk : ∀ op : StoreOp sub ev wts, (heldAt t op).isSome = (heldAt t' op).isSome)
    (slot : Slot) : (t.2.leafCache.leafAt slot).isSome = (t'.2.leafCache.leafAt slot).isSome := by
  have hop : ∀ op : StoreOp sub ev wts, (t.2.leafCache.leafAt op.slot).isSome =
      (t'.2.leafCache.leafAt op.slot).isSome := by
    intro op
    rw [ht.held, ht'.held, Option.isSome_map, Option.isSome_map, hk op]
  cases hlf : t.2.leafCache.leafAt slot with
  | some h =>
    obtain ⟨op, rfl⟩ := ht.named slot h hlf
    rw [← hlf]
    exact hop op
  | none =>
    cases hlf' : t'.2.leafCache.leafAt slot with
    | none => rfl
    | some h =>
      obtain ⟨op, rfl⟩ := ht'.named slot h hlf'
      have hbt := hop op
      rw [hlf, hlf'] at hbt
      cases hbt

theorem keys_of_leafAt {cache cache' : LeafCache}
    (h : ∀ slot, (cache.leafAt slot).isSome = (cache'.leafAt slot).isSome) :
    cache.submissions.keys = cache'.submissions.keys ∧
      cache.evaluations.keys = cache'.evaluations.keys ∧
      cache.weights.keys = cache'.weights.keys :=
  ⟨keys_eq_of_isSome fun k => h (.submission k),
    keys_eq_of_isSome fun k => h (.evaluation k),
    keys_eq_of_isSome fun n => h (.weights n)⟩

theorem length_values_of_keys {κ : Type} [LinearOrder κ] {m m' : OrdMap κ Bytes32}
    (h : m.keys = m'.keys) : m.values.length = m'.values.length := by
  have hl := congrArg length h
  rw [OrdMap.keys, OrdMap.keys, length_map, length_map] at hl
  rw [length_values, length_values]
  exact hl

theorem leafCache_eq {cache cache' : LeafCache}
    (hk : ∀ slot, (cache.leafAt slot).isSome = (cache'.leafAt slot).isSome)
    (hlv : cache.allLeaves = cache'.allLeaves) : cache = cache' := by
  obtain ⟨hsu, hev, hws⟩ := keys_of_leafAt hk
  rw [LeafCache.allLeaves, LeafCache.allLeaves, append_assoc, append_assoc] at hlv
  obtain ⟨hsb, hr⟩ := append_inj hlv (length_values_of_keys hsu)
  obtain ⟨he, hwt⟩ := append_inj hr (length_values_of_keys hev)
  obtain ⟨sbs, evs, ws⟩ := cache
  obtain ⟨submissions', evaluations', weights'⟩ := cache'
  obtain rfl : sbs = submissions' := eq_of_keys_values hsu hsb
  obtain rfl : evs = evaluations' := eq_of_keys_values hev he
  obtain rfl : ws = weights' := eq_of_keys_values hws hwt
  rfl

theorem hashPair_inj {xs : List Bytes} (hcl : C.Separates xs) {p q : Bytes32 × Bytes32}
    (hp : p.1.bytes ++ p.2.bytes ∈ xs) (hq : q.1.bytes ++ q.2.bytes ∈ xs)
    (h : hashPair C p.1 p.2 = hashPair C q.1 q.2) : p = q := by
  obtain ⟨⟨a, ha⟩, ⟨b, hb⟩⟩ := p
  obtain ⟨⟨c, hc⟩, ⟨d, hd⟩⟩ := q
  obtain ⟨rfl, rfl⟩ := append_inj (hcl _ hp _ hq h) (ha.trans hc.symm)
  rfl

theorem allLeaves_of_root {st st' : ChallengeStore} {xs : List Bytes} (hcl : C.Separates xs)
    (hlen : st.leafCache.allLeaves.length = st'.leafCache.allLeaves.length)
    (hin : ∀ st'' ∈ [st, st'], ∀ p ∈ Merkle.combined (hashPair C)
      st''.leafCache.allLeaves.length st''.leafCache.allLeaves, p.1.bytes ++ p.2.bytes ∈ xs)
    (hrt : st.computeStateRoot C = st'.computeStateRoot C) :
    st.leafCache.allLeaves = st'.leafCache.allLeaves := by
  have hsn : ∀ ls : List Bytes32, ls ≠ [] →
      ∃ root, Merkle.reduce (hashPair C) ls.length ls = [root] := by
    intro ls hne
    obtain ⟨x, rest, rfl⟩ := exists_cons_of_ne_nil hne
    exact ⟨_, @Merkle.climb_path _ (hashPair C) noHash x _ _ 0 (Nat.le_succ _) rfl⟩
  by_cases hnl : st.leafCache.allLeaves = []
  · rw [hnl] at hlen
    rw [hnl, length_eq_zero_iff.mp hlen.symm]
  · have hnl' : st'.leafCache.allLeaves ≠ [] := by
      intro h
      rw [h] at hlen
      exact hnl (length_eq_zero_iff.mp hlen)
    rw [ChallengeStore.computeStateRoot, if_neg hnl, ChallengeStore.computeStateRoot,
      if_neg hnl', computeMerkleRoot_eq hnl, computeMerkleRoot_eq hnl'] at hrt
    obtain ⟨root, hrd⟩ := hsn _ hnl
    obtain ⟨root', hrd'⟩ := hsn _ hnl'
    rw [hrd, hrd'] at hrt
    have hsame : root = root' := hrt
    rw [← hlen] at hrd'
    refine Merkle.reduce_inj hlen ?_ (hrd.trans (by rw [hsame, hrd']))
    intro p hp q hq
    refine hashPair_inj hcl (hin st mem_cons_self p hp)
      (hin st' (mem_cons_of_mem _ mem_cons_self) q ?_)
    rw [← hlen]
    exact hq

end

/-- **The state root binds the content.**  For two stores of one challenge, each after any calls on
a storage that held nothing for it, and if nothing that is hashed for them collides: if their roots
are equal, they hold the same records if and only if they hold records under the same keys. -/
theorem state_root_binds_iff {sub ev wts : Type} {C : Crypto} {R : Records sub ev wts}
    {id : String} {s s' : LocalStorage} (hunused : Unused id s) (hunused' : Unused id s')
    {l l' : List (StoreCall sub ev wts)} {t t' : LocalStorage × ChallengeStore}
    (hrun : MachineRun (challengeNext C (localStore C) R) (s, .new id) l t)
    (hrun' : MachineRun (challengeNext C (localStore C) R) (s', .new id) l' t')
    (hcol : C.Separates (hashedData C t ++ hashedData C t'))
    (hroot : t.2.computeStateRoot C = t'.2.computeStateRoot C) :
    (∀ op : StoreOp sub ev wts, heldAt t op = heldAt t' op) ↔
      ∀ op : StoreOp sub ev wts, (heldAt t op).isSome = (heldAt t' op).isSome := by
  constructor
  · intro h op
    rw [h op]
  · intro hk op
    have ht := bound_of_run hunused hrun
    have ht' := bound_of_run hunused' hrun'
    have hsl := ht.isSome_leafAt ht' hk
    obtain ⟨hsb, hev, hwt⟩ := keys_of_leafAt hsl
    have hlen : t.2.leafCache.allLeaves.length = t'.2.leafCache.allLeaves.length := by
      rw [LeafCache.allLeaves, LeafCache.allLeaves]
      simp only [length_append]
      rw [length_values_of_keys hsb, length_values_of_keys hev, length_values_of_keys hwt]
    have hlv := allLeaves_of_root hcol hlen ?_ hroot
    · have hlf : (heldAt t op).map (hashBytes C) = (heldAt t' op).map (hashBytes C) := by
        rw [← ht.held, ← ht'.held, leafCache_eq hsl hlv]
      cases hh : heldAt t op with
      | none =>
        rw [hh] at hlf
        exact (Option.map_eq_none_iff.mp hlf.symm).symm
      | some data =>
        cases hh' : heldAt t' op with
        | none =>
          rw [hh, hh'] at hlf
          cases hlf
        | some data' =>
          rw [hh, hh'] at hlf
          rw [hcol data (mem_append_left _ (mem_hashedData hh)) data'
            (mem_append_right _ (mem_hashedData hh')) (Option.some_inj.mp hlf)]
    · intro st hst p hp
      rcases mem_cons.mp hst with rfl | hst
      · exact mem_append_left _ (mem_append_right _ (mem_map.mpr ⟨p, hp, rfl⟩))
      · rw [mem_singleton.mp hst] at hp
        exact mem_append_right _ (mem_append_right _ (mem_map.mpr ⟨p, hp, rfl⟩))

/-! ## two runs -/

/-- a scheme whose hash takes all of the data into account -/
def mixingCrypto : Crypto :=
  { sampleCrypto with sha256 := fun data =>
      ⟨leBytes 32 (data.foldl (fun n b => 257 * n + b.toNat + 1) 0), length_leBytes 32 _⟩ }

def storeAfter (C : Crypto) (ops : List (Int64 × StoreOp Bytes Bytes Bytes)) :=
  trace (challengeNext C (localStore C) plainRecords) (.inMemory "node", .new "c") ops

def bindingSample : List (Int64 × StoreOp Bytes Bytes Bytes) :=
  [(0, .submission "a" [1]), (0, .evaluation "a" "v" [2]), (0, .weights 3 [4])]

/-- the same records in another order, and one of them stored twice -/
def bindingSample' : List (Int64 × StoreOp Bytes Bytes Bytes) :=
  [(5, .weights 3 [4]), (6, .submission "a" [9]), (7, .evaluation "a" "v" [2]),
    (8, .submission "a" [1])]

theorem state_root_binds_three :
    (storeAfter mixingCrypto bindingSample).2.1.data.size = 3 ∧
    ∀ op : StoreOp Bytes Bytes Bytes, heldAt (storeAfter mixingCrypto bindingSample).2 op =
      heldAt (storeAfter mixingCrypto bindingSample').2 op := by
  refine ⟨by decide +kernel, (state_root_binds_iff (unused_inMemory "c" "node")
    (unused_inMemory "c" "node") (machineRun_trace _ _ bindingSample)
    (machineRun_trace _ _ bindingSample') (by decide +kernel) (by decide +kernel)).mpr ?_⟩
  have hk : (storeAfter mixingCrypto bindingSample).2.1.data.keys =
      (storeAfter mixingCrypto bindingSample').2.1.data.keys := by decide +kernel
  have hid : (storeAfter mixingCrypto bindingSample).2.2.challengeId =
      (storeAfter mixingCrypto bindingSample').2.2.challengeId := by decide +kernel
  intro op
  change (heldAt (storeAfter mixingCrypto bindingSample).2 op).isSome =
    (heldAt (storeAfter mixingCrypto bindingSample').2 op).isSome
  rw [heldAt, heldAt, Option.isSome_map, Option.isSome_map, Bool.eq_iff_iff, ← OrdMap.mem_keys,
    ← OrdMap.mem_keys, hk, op.toBytes_key, op.toBytes_key, hid]

/-- The same record under two keys: the roots are equal, the keys are not. -/
theorem state_root_ignores_keys :
    ¬ ∀ (sub ev wts : Type) (C : Crypto) (R : Records sub ev wts) (id : String)
      (s s' : LocalStorage) (l l' : List (StoreCall sub ev wts))
      (t t' : LocalStorage × ChallengeStore), Unused id s → Unused id s' →
      MachineRun (challengeNext C (localStore C) R) (s, .new id) l t →
      MachineRun (challengeNext C (localStore C) R) (s', .new id) l' t' →
      C.Separates (hashedData C t ++ hashedData C t') →
      t.2.computeStateRoot C = t'.2.computeStateRoot C →
      ∀ op : StoreOp sub ev wts, heldAt t op = heldAt t' op := by
  intro h
  have hs := h Bytes Bytes Bytes mixingCrypto plainRecords "c" _ _ _ _
    (storeAfter mixingCrypto [(0, .submission "a" [1])]).2
    (storeAfter mixingCrypto [(0, .submission "b" [1])]).2
    (unused_inMemory "c" "node") (unused_inMemory "c" "node") (machineRun_trace _ _ _)
    (machineRun_trace _ _ _) (by decide +kernel) (by decide +kernel) (.submission "a" [1])
  exact absurd hs (by decide +kernel)

end Platform.Storage
