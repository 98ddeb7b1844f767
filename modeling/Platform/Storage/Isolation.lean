import Platform.Storage.ChallengeStore

/-!
# What two challenges over one storage see of each other

The keys of a category of a challenge begin with `category:id:`.  Two ids are apart if neither is
the other one followed by `:`; then no bytes begin with both.
-/

namespace Platform.Storage
open Platform.Core Lib Chain List ChallengeStore
open scoped Lib.Bytewise

/-! ## the index names the data -/

def IndexNames (s : LocalStorage) : Prop :=
  ∀ x d, s.index.get x = some d → ∃ k : StorageKey, x = k.indexKey ∧ d = k.toBytes

section
variable {C : Crypto} {s s' s₀ : LocalStorage} {k : StorageKey} {c : Int64 × LocalOp} {P : Bytes}

theorem IndexNames.insert (hs : IndexNames s) (h : s'.index = s.index.insert k.indexKey k.toBytes) :
    IndexNames s' := by
  intro x d hx
  rw [h] at hx
  by_cases hk : x = k.indexKey
  · rw [hk, OrdMap.get_insert_self] at hx
    exact ⟨k, hk, (Option.some_inj.mp hx).symm⟩
  · rw [OrdMap.get_insert_of_ne _ hk] at hx
    exact hs x d hx

theorem IndexNames.erase (hs : IndexNames s) (h : s'.index = s.index.erase k.indexKey) :
    IndexNames s' := by
  intro x d hx
  rw [h] at hx
  by_cases hk : x = k.indexKey
  · rw [hk, OrdMap.get_erase_self] at hx
    cases hx
  · rw [OrdMap.get_erase_of_ne _ hk] at hx
    exact hs x d hx

theorem IndexNames.effect (hs : IndexNames s) (h : Effect C s c s') : IndexNames s' := by
  cases h with
  | same => exact hs
  | put _ _ | putWithBlock _ _ | markReplicated _ => exact hs.insert rfl
  | expired _ _ | delete _ => exact hs.erase rfl

theorem indexNames_of_run {nid : String} {l : List LocalCall}
    (hrun : MachineRun (localNext C) (.inMemory nid) l s) : IndexNames s := by
  refine Run.invariant ?_ ?_ hrun
  · intro x d h
    cases h
  · intro s a s' hs h
    exact hs.effect (h.after_eq ▸ effect_of_next C s a.input)

/-! ## the part under a prefix -/

/-- The same keys with the prefix `P`, with the same entries. -/
structure SameUnder (P : Bytes) (s s' : LocalStorage) : Prop where
  data : ∀ d, P <+: d → s'.data.get d = s.data.get d
  index : ∀ x, P <+: x → s'.index.get x = s.index.get x

theorem SameUnder.refl (P : Bytes) (s : LocalStorage) : SameUnder P s s :=
  ⟨fun _ _ => rfl, fun _ _ => rfl⟩

theorem SameUnder.effect (hs : SameUnder P s₀ s) (h : Effect C s c s')
    (hdt : ¬ P <+: c.2.key.toBytes) (hix : ¬ P <+: c.2.key.indexKey) :
    SameUnder P s₀ s' where
  data := by
    intro d hd
    rw [h.data_of_ne fun heq => hdt (heq ▸ hd), hs.data d hd]
  index := by
    intro x hx
    rw [h.index_of_ne fun heq => hix (heq ▸ hx), hs.index x hx]

theorem get_congr (now : Int64) (h : s'.data.get k.toBytes = s.data.get k.toBytes) :
    ((localStore C).get now s' k).1 = ((localStore C).get now s k).1 := by
  have ha : ∀ s : LocalStorage, ((localStore C).get now s k).1 = s.answer C now k := by
    intro s
    show (orSame s (s.get C now k)).1 = (s.get C now k).map Prod.fst
    cases s.get C now k <;> rfl
  rw [ha, ha, answer_congr h]

theorem listScan_takeWhile {now : Int64} {lim : Nat} (r : List (Bytes × Bytes))
    (its : List Item) (lastKey : Option Bytes) :
    listScan now s P lim r its lastKey =
      listScan now s P lim (r.takeWhile fun x => P.isPrefixOf x.1) its lastKey := by
  induction r generalizing its lastKey with
  | nil => rfl
  | cons x r ih =>
    obtain ⟨ik, dk⟩ := x
    cases hP : P.isPrefixOf ik with
    | false =>
      have hsp : listScan now s P lim ((ik, dk) :: r) its lastKey = (its, lastKey) := by
        rw [listScan, if_pos hP]
      rw [hsp, takeWhile_cons_of_neg (by rw [hP]; decide)]
      rfl
    | true =>
      have htk : ((ik, dk) :: r).takeWhile (fun x => P.isPrefixOf x.1) =
          (ik, dk) :: r.takeWhile fun x => P.isPrefixOf x.1 :=
        takeWhile_cons_of_pos hP
      rw [htk, listScan, listScan]
      simp only [ih]

theorem listScan_congr {now : Int64} {lim : Nat} {r : List (Bytes × Bytes)}
    (h : ∀ x ∈ r, s'.data.get x.2 = s.data.get x.2) (its : List Item) (lastKey : Option Bytes) :
    listScan now s' P lim r its lastKey = listScan now s P lim r its lastKey := by
  induction r generalizing its lastKey with
  | nil => rfl
  | cons x r ih =>
    have ih' := ih fun y hy => h y (mem_cons_of_mem _ hy)
    rw [listScan, listScan, h _ mem_cons_self]
    simp only [ih']

theorem prefix_of_hex {c : UInt8} {n m t : Bytes} (ht : c ∉ t) (h : n ++ [c] <+: m ++ c :: t) :
    n ++ [c] <+: m ++ [c] := by
  have hm : m ++ [c] <+: m ++ c :: t := ⟨t, by rw [append_assoc]; rfl⟩
  rcases prefix_or_prefix_of_prefix h hm with hle | ⟨u, hu⟩
  · exact hle
  · rcases eq_nil_or_concat u with rfl | ⟨u', y, rfl⟩
    · rw [append_nil] at hu
      exact hu ▸ prefix_refl _
    · -- otherwise the separator would stand among the digits
      have hy : y = c := by
        rw [concat_eq_append, ← append_assoc] at hu
        exact singleton_inj.mp (append_inj_right' hu rfl)
      have hut : u'.concat y <+: t := by
        have hsp : m ++ c :: t = m ++ [c] ++ t := by rw [append_assoc]; rfl
        rw [← hu, hsp] at h
        exact (prefix_append_right_inj _).mp h
      exact absurd (hut.subset (by rw [concat_eq_append, hy]; simp)) ht

theorem toBytes_of_indexKey {n : Bytes} (h : n ++ [colon] <+: k.indexKey) :
    n ++ [colon] <+: k.toBytes := by
  rw [indexKey_eq] at h
  have hns := prefix_of_hex (colon_notMem_hexBytes k.key) h
  exact hns.trans ⟨k.key, by rw [append_assoc]; rfl⟩

/-- **A listing reads what is under its prefix**, in the index and in the data. -/
theorem listPrefix_congr {n : Bytes} (hs : SameUnder (n ++ [colon]) s s') (hnm : IndexNames s)
    {ns : String} {pre : Option Bytes} (hpe : n ++ [colon] <+: scanPrefix ns pre) (now : Int64)
    (limit : Nat) :
    s'.listPrefix now ns pre limit none = s.listPrefix now ns pre limit none := by
  have hu : ∀ x, (scanPrefix ns pre).isPrefixOf x = true → n ++ [colon] <+: x :=
    fun x hx => hpe.trans <| isPrefixOf_iff_prefix.mp hx
  have hix : matching s' (scanPrefix ns pre) = matching s (scanPrefix ns pre) :=
    OrdMap.filter_congr_get fun x hx => hs.index x (hu x hx)
  have hdt : ∀ x ∈ matching s (scanPrefix ns pre), s'.data.get x.2 = s.data.get x.2 := by
    intro x hx
    obtain ⟨hm, hpr⟩ := mem_filter.mp hx
    obtain ⟨k, hk, hby⟩ := hnm x.1 x.2 (OrdMap.get_eq_some.mpr hm)
    apply hs.data
    rw [hby]
    exact toBytes_of_indexKey (hk ▸ hu x.1 hpr)
  have hsc : listScan now s' (scanPrefix ns pre) limit
      (s'.index.rangeFrom (Option.getD none (scanPrefix ns pre))) [] none =
      listScan now s (scanPrefix ns pre) limit
        (s.index.rangeFrom (Option.getD none (scanPrefix ns pre))) [] none := by
    rw [listScan_takeWhile, listScan_takeWhile (s := s)]
    show listScan now s' _ limit (scanFrom s' _ none) [] none =
      listScan now s _ limit (scanFrom s _ none) [] none
    rw [scanFrom_none, scanFrom_none, hix]
    exact listScan_congr hdt [] none
  rw [LocalStorage.listPrefix, LocalStorage.listPrefix, hsc]

end

/-! ## the areas of a challenge -/

/-- what the keys of a category begin with -/
def area (category id : String) : Bytes := utf8 (category ++ ":" ++ id) ++ [colon]

theorem area_eq (category id : String) :
    area category id = utf8 category ++ colon :: (utf8 id ++ [colon]) := by
  rw [area, utf8_colon, append_assoc]
  rfl

/-- the categories of a challenge store -/
def categories : List String := ["submissions", "evaluations", "weights"]

theorem colonFree_of_category : ∀ category ∈ categories, ColonFree category := by decide +kernel

/-- Neither id is the other one followed by `:`. -/
def Apart (a b : String) : Prop := (¬ ∃ x, b = a ++ ":" ++ x) ∧ ¬ ∃ x, a = b ++ ":" ++ x

theorem area_isPrefix {c c' a b : String} (hc : ColonFree c) (hc' : ColonFree c')
    (h : area c a <+: area c' b) : c = c' ∧ (a = b ∨ ∃ x, b = a ++ ":" ++ x) := by
  rw [area_eq, area_eq, append_colon_isPrefix hc hc'] at h
  obtain ⟨hct, t, htl⟩ := h
  refine ⟨utf8_inj hct, ?_⟩
  rcases eq_nil_or_concat t with rfl | ⟨t', y, rfl⟩
  · rw [append_nil] at htl
    exact .inl (utf8_inj (append_inj_left' htl rfl))
  · have hid : utf8 (a ++ ":") ++ t' = utf8 b := by
      rw [concat_eq_append, ← append_assoc] at htl
      exact append_inj_left' htl rfl
    exact .inr (exists_append_of_utf8 hid)

theorem area_category {c c' a b : String} (hc : ColonFree c) (hc' : ColonFree c') {x : Bytes}
    (h : area c a <+: x) (h' : area c' b <+: x) : c = c' := by
  rcases prefix_or_prefix_of_prefix h h' with hle | hle
  · exact (area_isPrefix hc hc' hle).1
  · exact (area_isPrefix hc' hc hle).1.symm

theorem Apart.disjoint {a b c c' : String} (h : Apart a b) (hne : a ≠ b) (hc : ColonFree c)
    (hc' : ColonFree c') {x : Bytes} (ha : area c a <+: x) : ¬ area c' b <+: x := by
  intro hb
  rcases prefix_or_prefix_of_prefix ha hb with hle | hle
  · rcases (area_isPrefix hc hc' hle).2 with heq | hex
    · exact hne heq
    · exact h.1 hex
  · rcases (area_isPrefix hc' hc hle).2 with heq | hex
    · exact hne heq.symm
    · exact h.2 hex

section
variable (st : ChallengeStore) (cat : String) (key : Bytes)

theorem area_toBytes : area cat st.challengeId <+: StorageKey.toBytes ⟨st.namespaceOf cat, key⟩ :=
  ⟨key, by rw [area, append_assoc]; rfl⟩

theorem area_scanPrefix (pre : Option Bytes) :
    area cat st.challengeId <+: scanPrefix (st.namespaceOf cat) pre := by
  rw [scanPrefix_eq]
  exact ⟨hexBytes (pre.getD []), by rw [area, append_assoc]; rfl⟩

theorem area_indexKey : area cat st.challengeId <+: StorageKey.indexKey ⟨st.namespaceOf cat, key⟩ :=
  area_scanPrefix st cat (some key)

end

section
variable {sub ev wts : Type} {C : Crypto} {R : Records sub ev wts} {s s' : LocalStorage}
  {st : ChallengeStore}

theorem StoreOp.key_eq (st : ChallengeStore) (op : StoreOp sub ev wts) :
    ∃ category ∈ categories, ∃ key, op.key st = ⟨st.namespaceOf category, key⟩ := by
  cases op with
  | submission hash data => exact ⟨"submissions", by decide, utf8 hash, rfl⟩
  | evaluation submissionHash validator eval =>
    exact ⟨"evaluations", by decide, utf8 (submissionHash ++ ":" ++ validator), rfl⟩
  | weights epoch w => exact ⟨"weights", by decide, utf8 (toString epoch.toNat), rfl⟩

/-! ## calls of the one challenge -/

theorem effect_put (C : Crypto) (s : LocalStorage) (now : Int64) (k : StorageKey) (data : Bytes)
    (opts : PutOptions) : Effect C s (now, .put k data opts)
      ((localStore C).put now s k data opts).2 := by
  have h := effect_of_next C s (now, .put k data opts)
  have hs : (localNext C s (now, .put k data opts)).2 =
      ((localStore C).put now s k data opts).2 := by
    show (settle s .metadata (s.put C now k data opts)).2 = (orSame s (s.put C now k data opts)).2
    cases s.put C now k data opts <;> rfl
  exact hs ▸ h

theorem storage_of_next (s : LocalStorage × ChallengeStore) (now : Int64)
    (op : StoreOp sub ev wts) :
    (challengeNext C (localStore C) R s (now, op)).2.2.challengeId = s.2.challengeId ∧
    ((challengeNext C (localStore C) R s (now, op)).2.1 = s.1 ∨ ∃ data,
      Effect C s.1 (now, .put (op.key s.2) data .default)
        (challengeNext C (localStore C) R s (now, op)).2.1) := by
  rcases challengeNext_cases C (localStore C) R s now op with
    ⟨err, -, hnx⟩ | ⟨data, -, ⟨err, -, hnx⟩ | ⟨m, i, -, -, hnx⟩⟩
  · rw [hnx]
    exact ⟨rfl, .inl rfl⟩
  · rw [hnx]
    exact ⟨rfl, .inr ⟨data, effect_put C s.1 now (op.key s.2) data .default⟩⟩
  · rw [hnx]
    exact ⟨rfl, .inr ⟨data, effect_put C s.1 now (op.key s.2) data .default⟩⟩

/-- the storage is the same to all reads of the challenge `b` -/
def SameFor (b : String) (s s' : LocalStorage) : Prop :=
  ∀ category ∈ categories, SameUnder (area category b) s s'

/-- **One call** on a challenge that is apart. -/
theorem SameFor.step {a b : String} (hne : a ≠ b) (ha : Apart a b) {s₀ : LocalStorage}
    {t t' : LocalStorage × ChallengeStore}
    {c : Call (LocalStorage × ChallengeStore) (Int64 × StoreOp sub ev wts)
      (StorageResult MerkleProof)}
    (hid : t.2.challengeId = a) (hs : SameFor b s₀ t.1)
    (h : CallStep (challengeNext C (localStore C) R) t c t') :
    t'.2.challengeId = a ∧ SameFor b s₀ t'.1 := by
  obtain ⟨before, ⟨now, op⟩, out, after⟩ := c
  obtain ⟨hid', hsr⟩ := storage_of_next t now op
  rw [h.after_eq]
  refine ⟨hid'.trans hid, ?_⟩
  rcases hsr with hk | ⟨data, hef⟩
  · show SameFor b s₀ (challengeNext C (localStore C) R t (now, op)).2.1
    rw [hk]
    exact hs
  · intro category hct
    obtain ⟨category', hct', key, hky⟩ := op.key_eq t.2
    have hds : ∀ {x : Bytes}, area category' t.2.challengeId <+: x →
        ¬ area category b <+: x := fun hx =>
      ha.disjoint hne (colonFree_of_category _ hct') (colonFree_of_category _ hct) (hid ▸ hx)
    refine (hs category hct).effect hef ?_ ?_
    · show ¬ _ <+: (op.key t.2).toBytes
      rw [hky]
      exact hds (area_toBytes t.2 category' key)
    · show ¬ _ <+: (op.key t.2).indexKey
      rw [hky]
      exact hds (area_indexKey t.2 category' key)

/-! ## reads of the other challenge -/

theorem challengeRead_congr (st : ChallengeStore) (hs : SameFor st.challengeId s s')
    (hnm : IndexNames s) (now : Int64) (op : ReadOp) :
    challengeRead (localStore C) R now s' st op = challengeRead (localStore C) R now s st op := by
  have hg : ∀ category ∈ categories, ∀ key,
      ((localStore C).get now s' ⟨st.namespaceOf category, key⟩).1 =
        ((localStore C).get now s ⟨st.namespaceOf category, key⟩).1 := fun category h key =>
    get_congr now ((hs category h).data _ (area_toBytes st category key))
  have hls : ∀ category ∈ categories, ∀ pre limit,
      s'.listPrefix now (st.namespaceOf category) pre limit none =
        s.listPrefix now (st.namespaceOf category) pre limit none := fun category h pre limit =>
    listPrefix_congr (hs category h) hnm (area_scanPrefix st category pre) now limit
  have hrc : ∀ {α : Type} (codec : RecordCodec α), ∀ category ∈ categories, ∀ key,
      (getRecord (localStore C) codec now s' ⟨st.namespaceOf category, key⟩).1 =
        (getRecord (localStore C) codec now s ⟨st.namespaceOf category, key⟩).1 := by
    intro α codec category h key
    rw [getRecord_fst, getRecord_fst, hg category h key]
  have hrr : ∀ {α : Type} (codec : RecordCodec α), ∀ category ∈ categories, ∀ pre limit,
      (listRecords (localStore C) codec now s' (st.namespaceOf category) pre
        limit).1 = (listRecords (localStore C) codec now s
          (st.namespaceOf category) pre limit).1 := by
    intro α codec category h pre limit
    rw [listRecords_fst, listRecords_fst]
    exact congrArg (Except.map _) (hls category h pre limit)
  cases op with
  | submission hash => exact congrArg (Except.map _) (hrc _ "submissions" (by decide) _)
  | submissions limit => exact congrArg (Except.map _) (hrr _ "submissions" (by decide) _ _)
  | evaluations submissionHash =>
    exact congrArg (Except.map _) (hrr _ "evaluations" (by decide) _ _)
  | weights epoch => exact congrArg (Except.map _) (hrc _ "weights" (by decide) _)

end

/-! ## isolation -/

def Isolated {sub ev wts : Type} (C : Crypto) (R : Records sub ev wts) (a b : String) : Prop :=
  ∀ (nodeId : String) (l₀ : List LocalCall) (s : LocalStorage),
    MachineRun (localNext C) (.inMemory nodeId) l₀ s →
  ∀ (cache : LeafCache) (l : List (Call (LocalStorage × ChallengeStore)
      (Int64 × StoreOp sub ev wts) (StorageResult MerkleProof)))
    (s' : LocalStorage × ChallengeStore),
    MachineRun (challengeNext C (localStore C) R) (s, ⟨a, cache⟩) l s' →
  ∀ (now : Int64) (cache' : LeafCache) (op : ReadOp),
    challengeRead (localStore C) R now s'.1 ⟨b, cache'⟩ op =
      challengeRead (localStore C) R now s ⟨b, cache'⟩ op

section
variable {sub ev wts : Type} {C : Crypto} {R : Records sub ev wts} {a b : String}

theorem isolated_of_apart (hne : a ≠ b) (ha : Apart a b) : Isolated C R a b := by
  intro nid l₀ s hrun₀ cache l s' hrun now cache' op
  have hen : s'.2.challengeId = a ∧ SameFor b s s'.1 := by
    refine Run.invariant (P := fun t => t.2.challengeId = a ∧ SameFor b s t.1)
      ⟨rfl, fun category _ => SameUnder.refl (area category b) s⟩ ?_ hrun
    rintro t c t' ⟨hid, hsame⟩ hstep
    exact SameFor.step hne ha hid hsame hstep
  exact challengeRead_congr ⟨b, cache'⟩ hen.2 (indexNames_of_run hrun₀) now op

theorem getRecord_ne_none {rec : Type} (cd : RecordCodec rec) {now : Int64} {s : LocalStorage}
    {k : StorageKey} {e : LocalEntry} (he : s.data.get k.toBytes = some e)
    (hlv : ¬ e.value.metadata.isExpired now = true) :
    (getRecord (localStore C) cd now s k).1 ≠ .ok none := by
  intro hn
  rw [getRecord_fst] at hn
  change ((orSame s (s.get C now k)).1 >>= _) = _ at hn
  rw [get_of_some C he, if_neg hlv] at hn
  exact cd.decoded_some_ne e.value hn

theorem not_isolated_of_collision {h h' : String} {data : sub} {bytes : Bytes}
    (hby : R.submission.toBytes data = .ok bytes)
    (hk : ((new a).submissionKey h).toBytes =
      ((new b).submissionKey h').toBytes) : ¬ Isolated C R a b := by
  intro his
  let s₀ : LocalStorage := .inMemory ""
  let next := challengeNext C (localStore C) R (s₀, .new a) (0, .submission h data)
  have hr := his "" [] s₀ .nil .new _ _
    (machineRun_trace (challengeNext C (localStore C) R) (s₀, .new a) [(0, .submission h data)])
    0 .new (.submission h')
  -- the entry of the put, at the key of the other challenge
  let e := LocalStorage.entryFor C 0 "" none bytes .default none
  have hen : next.2.1.data.get ((new b).submissionKey h').toBytes = some e := by
    have hnx : next.2.1 = s₀.written C ((new a).submissionKey h) none e := by
      show (storeLeaf C (localStore C) 0 s₀ (.new a) _ (R.submission.toBytes data) _ _ _).2.1 = _
      rw [hby]
      rfl
    rw [hnx, ← hk]
    exact OrdMap.get_insert_self _ _ _
  change Except.map _ (getRecord (localStore C) R.submission 0 next.2.1
    ((new b).submissionKey h')).1 = _ at hr
  have hlv : ¬ e.value.metadata.isExpired 0 = true := Bool.false_ne_true
  have hsm := getRecord_ne_none (C := C) R.submission hen hlv
  cases hrc : (getRecord (localStore C) R.submission 0 next.2.1 ((new b).submissionKey h')).1 with
  | error err =>
    rw [hrc] at hr
    cases hr
  | ok o =>
    rw [hrc] at hr
    cases hr
    exact hsm hrc

theorem submissionKey_extended (a x : String) :
    ((new (a ++ ":" ++ x)).submissionKey "").toBytes =
      ((new a).submissionKey (x ++ ":")).toBytes := by
  simp [StorageKey.toBytes, submissionKey, namespaceOf,
    new, show utf8 ":" = [colon] from rfl, show utf8 "" = [] from rfl]

end

/-- **Challenge isolation.**  For different ids, and if some submission can be serialized at all:
calls on the one challenge leave every result of the other as it was, if and only if neither id is
the other one followed by `:`. -/
theorem challenge_isolation_iff {sub ev wts : Type} (C : Crypto) (R : Records sub ev wts)
    {a b : String} (hne : a ≠ b) (hrecord : ∃ data bytes, R.submission.toBytes data = .ok bytes) :
    Isolated C R a b ↔ Apart a b := by
  obtain ⟨data, bytes, hby⟩ := hrecord
  constructor
  · intro his
    constructor
    · rintro ⟨x, rfl⟩
      exact not_isolated_of_collision hby (submissionKey_extended a x).symm his
    · rintro ⟨x, rfl⟩
      exact not_isolated_of_collision hby (submissionKey_extended b x) his
  · exact isolated_of_apart hne

theorem challenge_isolation_sample :
    Apart "alpha" "alphabet" ∧ Isolated sampleCrypto plainRecords "alpha" "alphabet" := by
  have ha : Apart "alpha" "alphabet" := by
    constructor
    · rintro ⟨x, hx⟩
      have hff : ("alphabet".toList)[5]? = (("alpha" ++ ":" ++ x).toList)[5]? :=
        congrArg (fun str => str.toList[5]?) hx
      exact absurd hff (by simp)
    · rintro ⟨x, hx⟩
      have hl := congrArg (fun str => str.toList.length) hx
      simp only [String.toList_append, length_append] at hl
      exact absurd hl (by simp; omega)
  exact ⟨ha, (challenge_isolation_iff sampleCrypto plainRecords (by decide) ⟨[1], [1], rfl⟩).mpr ha⟩

/-- A submission of the challenge `a:b` shows up in the list of the challenge `a`. -/
theorem challenges_not_isolated :
    ¬ ∀ (C : Crypto) (R : Records Bytes Bytes Bytes) (a b : String), a ≠ b → Isolated C R a b := by
  intro h
  let store : LocalStorage × ChallengeStore := (.inMemory "node", .new "a:b")
  have hr := h sampleCrypto plainRecords "a:b" "a" (by decide) "node" [] store.1 .nil .new _ _
    (machineRun_trace (challengeNext sampleCrypto (localStore sampleCrypto) plainRecords) store
      [(0, .submission "h" [1])]) 1 .new (.submissions 10)
  have ha : challengeRead (localStore sampleCrypto) plainRecords 1
      (trace (challengeNext sampleCrypto (localStore sampleCrypto) plainRecords) store
        [(0, .submission "h" [1])]).2.1 (.new "a") (.submissions 10) =
      .ok (.submissions [[1]]) := by decide +kernel
  have hbf : challengeRead (localStore sampleCrypto) plainRecords 1 store.1 (.new "a")
      (.submissions 10) = .ok (.submissions []) := by decide +kernel
  have hs := ha.symm.trans (hr.trans hbf)
  cases hs

end Platform.Storage
