import Platform.Lib.Merkle
import Platform.Storage.Listing

/-!
# Challenge stores (`challenge_store.rs`)

A challenge store writes to a store that it shares with others, and keeps the hashes of what it has
written as the leaves of a Merkle tree.  The inner store is any `DistributedStore`, the bytes of the
three kinds of records are given by their codecs.
-/

namespace Platform.Storage
open Platform.Core Lib Chain
open scoped Lib.Bytewise

/-! ## what a challenge store is built on -/

/-- The calls of the trait `DistributedStore` that are made, each at a time and on a state. -/
structure DistributedStore (σ : Type) where
  put : Int64 → σ → StorageKey → Bytes → PutOptions → StorageResult ValueMetadata × σ
  get : Int64 → σ → StorageKey → StorageResult (Option StoredValue) × σ
  listPrefix : Int64 → σ → String → Option Bytes → Nat → Option Bytes →
    StorageResult (Page Item Bytes) × σ

def localStore (C : Crypto) : DistributedStore LocalStorage where
  put now s k value options := orSame s (s.put C now k value options)
  get now s k := orSame s (s.get C now k)
  listPrefix now s ns pre limit token := (s.listPrefix now ns pre limit token, s)

/-- `to_bytes` and `from_bytes` of a record, with the text of the error -/
structure RecordCodec (α : Type) where
  toBytes : α → Except String Bytes
  fromBytes : Bytes → Except String α

structure Records (sub ev wts : Type) where
  submission : RecordCodec sub
  evaluation : RecordCodec ev
  weights : RecordCodec wts

/-! ## the Merkle tree -/

section
variable (C : Crypto)

def hashBytes (data : Bytes) : Bytes32 := C.sha256 data

def hashPair (left right : Bytes32) : Bytes32 := C.sha256 (left.bytes ++ right.bytes)

theorem length_noBytes : (List.replicate 32 (0 : UInt8)).length = 32 := rfl

/-- `[0u8; 32]` -/
def noHash : Bytes32 := ⟨List.replicate 32 0, length_noBytes⟩

def computeMerkleRoot (leaves : List Bytes32) : Bytes32 :=
  match leaves with
  | [] => noHash
  | [leaf] => leaf
  | _ => (Merkle.reduce (hashPair C) leaves.length leaves).headD noHash

structure MerkleProof where
  root : Bytes32
  path : List (Merkle.Node Bytes32)
  leafIndex : Nat
  leafHash : Bytes32
deriving DecidableEq

def MerkleProof.verify (proof : MerkleProof) (data : Bytes) : Bool :=
  if hashBytes C data ≠ proof.leafHash then false
  else decide (Merkle.climb (hashPair C) proof.leafHash proof.path = proof.root)

def buildMerkleProof (leaves : List Bytes32) (leafIndex : Nat) (data : Bytes) : MerkleProof :=
  if leaves = [] ∨ leaves.length ≤ leafIndex then ⟨noHash, [], leafIndex, hashBytes C data⟩
  else
    ⟨computeMerkleRoot C leaves, Merkle.path (hashPair C) noHash leaves.length leaves leafIndex,
      leafIndex, leaves.getD leafIndex noHash⟩

end

/-! ## the leaf cache -/

/-- The maps with `String` keys are ordered by the bytes of the key. -/
structure LeafCache where
  submissions : OrdMap Bytes Bytes32
  evaluations : OrdMap Bytes Bytes32
  weights : OrdMap Nat Bytes32
deriving DecidableEq

namespace LeafCache

def new : LeafCache := ⟨∅, ∅, ∅⟩

def allLeaves (c : LeafCache) : List Bytes32 :=
  c.submissions.values ++ c.evaluations.values ++ c.weights.values

def submissionIndex (c : LeafCache) (key : String) : Option Nat :=
  c.submissions.keys.findIdx? fun k => k = utf8 key

def evaluationIndex (c : LeafCache) (key : String) : Option Nat :=
  (c.evaluations.keys.findIdx? fun k => k = utf8 key).map fun idx => c.submissions.size + idx

def weightsIndex (c : LeafCache) (epoch : UInt64) : Option Nat :=
  (c.weights.keys.findIdx? fun e => e = epoch.toNat).map fun idx =>
    c.submissions.size + c.evaluations.size + idx

end LeafCache

/-! ## the store -/

structure ChallengeStore where
  challengeId : String
  leafCache : LeafCache
deriving DecidableEq

namespace ChallengeStore

/-- `ChallengeStore::new`, `with_arc` -/
def new (challengeId : String) : ChallengeStore := ⟨challengeId, .new⟩

def namespaceOf (st : ChallengeStore) (category : String) : String :=
  category ++ ":" ++ st.challengeId

def submissionKey (st : ChallengeStore) (hash : String) : StorageKey :=
  ⟨st.namespaceOf "submissions", utf8 hash⟩

def evaluationKey (st : ChallengeStore) (submissionHash validator : String) : StorageKey :=
  ⟨st.namespaceOf "evaluations", utf8 (submissionHash ++ ":" ++ validator)⟩

def evaluationsPrefix (submissionHash : String) : String := submissionHash ++ ":"

def weightsKey (st : ChallengeStore) (epoch : UInt64) : StorageKey :=
  ⟨st.namespaceOf "weights", utf8 (toString epoch.toNat)⟩

def computeStateRoot (C : Crypto) (st : ChallengeStore) : Bytes32 :=
  if st.leafCache.allLeaves = [] then noHash else computeMerkleRoot C st.leafCache.allLeaves

section
variable {σ sub ev wts : Type} (C : Crypto) (D : DistributedStore σ) (R : Records sub ev wts)

def generateProof (cache : LeafCache) (index : Option Nat) (missing : String) (data : Bytes) :
    StorageResult MerkleProof :=
  match index with
  | none => .error (.internal missing)
  | some i => .ok (buildMerkleProof C cache.allLeaves i data)

variable (now : Int64) (inner : σ) (st : ChallengeStore)

def storeLeaf (key : StorageKey) (bytes : Except String Bytes)
    (insert : Bytes32 → LeafCache → LeafCache) (index : LeafCache → Option Nat) (missing : String) :
    StorageResult MerkleProof × σ × ChallengeStore :=
  match bytes with
  | .error err => (.error (.serialization err), inner, st)
  | .ok bytes =>
    match D.put now inner key bytes .default with
    | (.error err, inner') => (.error err, inner', st)
    | (.ok _, inner') =>
      let cache := insert (hashBytes C bytes) st.leafCache
      (generateProof C cache (index cache) missing bytes, inner', { st with leafCache := cache })

def storeSubmission (hash : String) (data : sub) : StorageResult MerkleProof × σ × ChallengeStore :=
  storeLeaf C D now inner st (st.submissionKey hash) (R.submission.toBytes data)
    (fun h cache => { cache with submissions := cache.submissions.insert (utf8 hash) h })
    (fun cache => cache.submissionIndex hash) "Submission not in cache"

def storeEvaluation (submissionHash validator : String) (eval : ev) :
    StorageResult MerkleProof × σ × ChallengeStore :=
  storeLeaf C D now inner st (st.evaluationKey submissionHash validator)
    (R.evaluation.toBytes eval)
    (fun h cache => { cache with
      evaluations := cache.evaluations.insert (utf8 (submissionHash ++ ":" ++ validator)) h })
    (fun cache => cache.evaluationIndex (submissionHash ++ ":" ++ validator))
    "Evaluation not in cache"

def storeWeights (epoch : UInt64) (weights : wts) :
    StorageResult MerkleProof × σ × ChallengeStore :=
  storeLeaf C D now inner st (st.weightsKey epoch) (R.weights.toBytes weights)
    (fun h cache => { cache with weights := cache.weights.insert epoch.toNat h })
    (fun cache => cache.weightsIndex epoch) "Weights not in cache"

/-- the common body of `get_submission` and `get_weights` -/
def getRecord {α : Type} (codec : RecordCodec α) (now : Int64) (inner : σ) (key : StorageKey) :
    StorageResult (Option α) × σ :=
  match D.get now inner key with
  | (.error err, inner') => (.error err, inner')
  | (.ok none, inner') => (.ok none, inner')
  | (.ok (some stored), inner') =>
    match codec.fromBytes stored.data with
    | .error err => (.error (.serialization err), inner')
    | .ok record => (.ok (some record), inner')

/-- the common body of `list_submissions` and `get_evaluations`: what cannot be read is left out -/
def listRecords {α : Type} (codec : RecordCodec α) (now : Int64) (inner : σ) (ns : String)
    (pre : Option Bytes) (limit : Nat) : StorageResult (List α) × σ :=
  match D.listPrefix now inner ns pre limit none with
  | (.error err, inner') => (.error err, inner')
  | (.ok page, inner') =>
    (.ok (page.items.filterMap fun item => (codec.fromBytes item.2.data).toOption), inner')

def getSubmission (hash : String) : StorageResult (Option sub) × σ :=
  getRecord D R.submission now inner (st.submissionKey hash)

def listSubmissions (limit : Nat) : StorageResult (List sub) × σ :=
  listRecords D R.submission now inner (st.namespaceOf "submissions") none limit

def getEvaluations (submissionHash : String) : StorageResult (List ev) × σ :=
  listRecords D R.evaluation now inner (st.namespaceOf "evaluations")
    (some (utf8 (evaluationsPrefix submissionHash))) 1000

def getWeights (epoch : UInt64) : StorageResult (Option wts) × σ :=
  getRecord D R.weights now inner (st.weightsKey epoch)

/-! ## after a restart -/

def parseU64 (text : String) : Option UInt64 :=
  let digits := match text.toList with
    | '+' :: rest => rest
    | chars => chars
  if digits ≠ [] ∧ digits.all Char.isDigit = true then
    let n := digits.foldl (fun n d => 10 * n + (d.toNat - '0'.toNat)) 0
    if n < 2 ^ 64 then some (UInt64.ofNat n) else none
  else none

def collectLeaves {κ : Type} [LinearOrder κ] (keyOf : String → Option κ) (items : List Item) :
    OrdMap κ Bytes32 :=
  items.foldl (fun leaves item =>
    match item.1.keyString.bind keyOf with
    | some key => leaves.insert key (hashBytes C item.2.data)
    | none => leaves) ∅

def rebuildCache : StorageResult Unit × σ × ChallengeStore :=
  match D.listPrefix now inner (st.namespaceOf "submissions") none 10000 none with
  | (.error err, inner) => (.error err, inner, { st with leafCache := .new })
  | (.ok submissions, inner) =>
    let cache : LeafCache := ⟨collectLeaves C (fun k => some (utf8 k)) submissions.items, ∅, ∅⟩
    match D.listPrefix now inner (st.namespaceOf "evaluations") none 100000 none with
    | (.error err, inner) => (.error err, inner, { st with leafCache := cache })
    | (.ok evaluations, inner) =>
      let cache : LeafCache :=
        { cache with evaluations := collectLeaves C (fun k => some (utf8 k)) evaluations.items }
      match D.listPrefix now inner (st.namespaceOf "weights") none 10000 none with
      | (.error err, inner) => (.error err, inner, { st with leafCache := cache })
      | (.ok weights, inner) =>
        (.ok (), inner, { st with leafCache :=
          { cache with weights :=
              collectLeaves C (fun k => (parseU64 k).map UInt64.toNat) weights.items } })

end

end ChallengeStore

/-! ## calls -/

inductive StoreOp (sub ev wts : Type) where
  | submission (hash : String) (data : sub)
  | evaluation (submissionHash validator : String) (eval : ev)
  | weights (epoch : UInt64) (w : wts)

section
variable {σ sub ev wts : Type} (C : Crypto) (D : DistributedStore σ) (R : Records sub ev wts)

def StoreOp.bytes : StoreOp sub ev wts → Except String Bytes
  | .submission _ data => R.submission.toBytes data
  | .evaluation _ _ eval => R.evaluation.toBytes eval
  | .weights _ w => R.weights.toBytes w

/-- the key that a call writes to -/
def StoreOp.key (st : ChallengeStore) : StoreOp sub ev wts → StorageKey
  | .submission hash _ => st.submissionKey hash
  | .evaluation submissionHash validator _ => st.evaluationKey submissionHash validator
  | .weights epoch _ => st.weightsKey epoch

def StoreOp.insertLeaf (op : StoreOp sub ev wts) (h : Bytes32) (cache : LeafCache) : LeafCache :=
  match op with
  | .submission hash _ => { cache with submissions := cache.submissions.insert (utf8 hash) h }
  | .evaluation submissionHash validator _ => { cache with
      evaluations := cache.evaluations.insert (utf8 (submissionHash ++ ":" ++ validator)) h }
  | .weights epoch _ => { cache with weights := cache.weights.insert epoch.toNat h }

/-- where the leaf of a call is looked for -/
def StoreOp.leafIndex (op : StoreOp sub ev wts) (cache : LeafCache) : Option Nat :=
  match op with
  | .submission hash _ => cache.submissionIndex hash
  | .evaluation submissionHash validator _ =>
    cache.evaluationIndex (submissionHash ++ ":" ++ validator)
  | .weights epoch _ => cache.weightsIndex epoch

def challengeNext (s : σ × ChallengeStore) (c : Int64 × StoreOp sub ev wts) :
    StorageResult MerkleProof × σ × ChallengeStore :=
  match c with
  | (now, .submission hash data) => s.2.storeSubmission C D R now s.1 hash data
  | (now, .evaluation submissionHash validator eval) =>
    s.2.storeEvaluation C D R now s.1 submissionHash validator eval
  | (now, .weights epoch weights) => s.2.storeWeights C D R now s.1 epoch weights

inductive ReadOp where
  | submission (hash : String)
  | submissions (limit : Nat)
  | evaluations (submissionHash : String)
  | weights (epoch : UInt64)

inductive ReadOut (sub ev wts : Type) where
  | submission (record : Option sub)
  | submissions (records : List sub)
  | evaluations (records : List ev)
  | weights (record : Option wts)
deriving DecidableEq

def challengeRead (now : Int64) (inner : σ) (st : ChallengeStore) :
    ReadOp → StorageResult (ReadOut sub ev wts)
  | .submission hash => (st.getSubmission D R now inner hash).1.map .submission
  | .submissions limit => (st.listSubmissions D R now inner limit).1.map .submissions
  | .evaluations submissionHash =>
    (st.getEvaluations D R now inner submissionHash).1.map .evaluations
  | .weights epoch => (st.getWeights D R now inner epoch).1.map .weights

end

/-! ## where a leaf stands -/

section
variable {κ : Type} [LinearOrder κ] {m : OrdMap κ Bytes32} {k : κ} {p : κ → Bool} {i : Nat}

theorem values_of_findIdx (hp : ∀ k', p k' = true → k' = k) (h : m.keys.findIdx? p = some i) :
    m.values[i]? = m.get k := by
  obtain ⟨hlt, hk, -⟩ := List.findIdx?_eq_some_iff_getElem.mp h
  refine OrdMap.values_of_keys ?_
  rw [List.getElem?_eq_getElem hlt, hp _ hk]

theorem findIdx_insert (hp : p k = true) (h : Bytes32) :
    ∃ i, (m.insert k h).keys.findIdx? p = some i := by
  have hm : k ∈ (m.insert k h).keys :=
    List.mem_map.mpr ⟨(k, h), OrdMap.get_eq_some.mp (OrdMap.get_insert_self m k h), rfl⟩
  cases hfn : (m.insert k h).keys.findIdx? p with
  | some i => exact ⟨i, rfl⟩
  | none =>
    have hnt := List.findIdx?_eq_none_iff.mp hfn k hm
    rw [hp] at hnt
    cases hnt

theorem length_values (m : OrdMap κ Bytes32) : m.values.length = m.size := List.length_map _

end

section
variable {σ sub ev wts : Type} {C : Crypto} {D : DistributedStore σ} {R : Records sub ev wts}

theorem leafIndex_insertLeaf (op : StoreOp sub ev wts) (h : Bytes32) (cache : LeafCache) :
    ∃ i, op.leafIndex (op.insertLeaf h cache) = some i := by
  cases op with
  | submission hash data =>
    exact findIdx_insert (p := fun k => k = utf8 hash) (decide_eq_true rfl) h
  | evaluation submissionHash who eval =>
    obtain ⟨i, hi⟩ := findIdx_insert (p := fun k => k = utf8 (submissionHash ++ ":" ++ who))
      (decide_eq_true rfl) h
    exact ⟨_, congrArg (Option.map _) hi⟩
  | weights ep w =>
    obtain ⟨i, hi⟩ := findIdx_insert (p := fun e => e = ep.toNat) (decide_eq_true rfl) h
    exact ⟨_, congrArg (Option.map _) hi⟩

theorem leaf_of_leafIndex {op : StoreOp sub ev wts} {h : Bytes32} {cache : LeafCache} {i : Nat}
    (hi : op.leafIndex (op.insertLeaf h cache) = some i) :
    (op.insertLeaf h cache).allLeaves[i]? = some h := by
  cases op with
  | submission hash data =>
    have hvl := (values_of_findIdx (fun _ => of_decide_eq_true) hi).trans
      (OrdMap.get_insert_self cache.submissions (utf8 hash) h)
    have hlt := (List.getElem?_eq_some_iff.mp hvl).1
    rw [LeafCache.allLeaves, List.append_assoc]
    exact (List.getElem?_append_left hlt).trans hvl
  | evaluation submissionHash who eval =>
    obtain ⟨idx, hix, rfl⟩ := Option.map_eq_some_iff.mp hi
    have hvl := (values_of_findIdx (fun _ => of_decide_eq_true) hix).trans
      (OrdMap.get_insert_self cache.evaluations (utf8 (submissionHash ++ ":" ++ who)) h)
    have hlt := (List.getElem?_eq_some_iff.mp hvl).1
    have hsz := length_values cache.submissions
    show (cache.submissions.values ++ _ ++ _)[cache.submissions.size + idx]? = _
    rw [List.append_assoc, List.getElem?_append_right (by omega), hsz, Nat.add_sub_cancel_left]
    exact (List.getElem?_append_left hlt).trans hvl
  | weights ep w =>
    obtain ⟨idx, hix, rfl⟩ := Option.map_eq_some_iff.mp hi
    have hvl := (values_of_findIdx (fun _ => of_decide_eq_true) hix).trans
      (OrdMap.get_insert_self cache.weights ep.toNat h)
    have hl : (cache.submissions.values ++ cache.evaluations.values).length =
        cache.submissions.size + cache.evaluations.size := by
      rw [List.length_append, length_values, length_values]
    show (cache.submissions.values ++ cache.evaluations.values ++
      _)[cache.submissions.size + cache.evaluations.size + idx]? = _
    rw [List.getElem?_append_right (by omega), hl, Nat.add_sub_cancel_left]
    exact hvl

/-! ## what a read returns -/

def RecordCodec.decoded {α : Type} (codec : RecordCodec α) :
    Option StoredValue → StorageResult (Option α)
  | none => .ok none
  | some stored =>
    match codec.fromBytes stored.data with
    | .error err => .error (.serialization err)
    | .ok record => .ok (some record)

theorem RecordCodec.decoded_some_ne {α : Type} (cd : RecordCodec α) (v : StoredValue) :
    cd.decoded (some v) ≠ .ok none := by
  intro h
  unfold decoded at h
  cases hfr : cd.fromBytes v.data with
  | error err | ok record =>
    simp only [hfr] at h
    cases h

theorem getRecord_fst {α : Type} (cd : RecordCodec α) (now : Int64) (inner : σ)
    (key : StorageKey) : (ChallengeStore.getRecord D cd now inner key).1 =
      (D.get now inner key).1 >>= cd.decoded := by
  unfold ChallengeStore.getRecord
  rcases D.get now inner key with ⟨err | _ | sd, inner'⟩
  · rfl
  · rfl
  · show _ = cd.decoded (some sd)
    unfold RecordCodec.decoded
    cases hfr : cd.fromBytes sd.data <;> simp only [hfr]

theorem listRecords_fst {α : Type} (cd : RecordCodec α) (now : Int64) (inner : σ) (ns : String)
    (pre : Option Bytes) (lim : Nat) :
    (ChallengeStore.listRecords D cd now inner ns pre lim).1 =
      (D.listPrefix now inner ns pre lim none).1.map fun page =>
        page.items.filterMap fun item => (cd.fromBytes item.2.data).toOption := by
  unfold ChallengeStore.listRecords
  rcases D.listPrefix now inner ns pre lim none with ⟨err | page, inner'⟩
  · rfl
  · rfl

/-! ## what a call can do -/

/-- **The ways in which a call can end**: it fails before or in the put, and then the cache is as it
was, or it returns the proof of its leaf. -/
theorem challengeNext_cases (C : Crypto) (D : DistributedStore σ) (R : Records sub ev wts)
    (s : σ × ChallengeStore) (now : Int64) (op : StoreOp sub ev wts) :
    (∃ err, op.bytes R = .error err ∧
      challengeNext C D R s (now, op) = (.error (.serialization err), s)) ∨
    ∃ data, op.bytes R = .ok data ∧
      ((∃ err, (D.put now s.1 (op.key s.2) data .default).1 = .error err ∧
        challengeNext C D R s (now, op) =
          (.error err, (D.put now s.1 (op.key s.2) data .default).2, s.2)) ∨
      ∃ m i, (D.put now s.1 (op.key s.2) data .default).1 = .ok m ∧
        op.leafIndex (op.insertLeaf (hashBytes C data) s.2.leafCache) = some i ∧
        challengeNext C D R s (now, op) =
          (.ok (buildMerkleProof C
            (op.insertLeaf (hashBytes C data) s.2.leafCache).allLeaves i data),
            (D.put now s.1 (op.key s.2) data .default).2,
            { s.2 with leafCache := op.insertLeaf (hashBytes C data) s.2.leafCache })) := by
  have hix := leafIndex_insertLeaf op
  obtain ⟨missing, hnx⟩ : ∃ missing, challengeNext C D R s (now, op) =
      s.2.storeLeaf C D now s.1 (op.key s.2) (op.bytes R) op.insertLeaf op.leafIndex missing := by
    cases op with
    | submission | evaluation | weights => exact ⟨_, rfl⟩
  rw [hnx]
  unfold ChallengeStore.storeLeaf
  cases op.bytes R with
  | error err => exact .inl ⟨err, rfl, rfl⟩
  | ok data =>
    refine .inr ⟨data, rfl, ?_⟩
    rcases hpt : D.put now s.1 (op.key s.2) data .default with ⟨err | m, inner'⟩
    · exact .inl ⟨err, rfl, by simp only [hpt]⟩
    · obtain ⟨i, hi⟩ := hix (hashBytes C data) s.2.leafCache
      refine .inr ⟨m, i, rfl, hi, ?_⟩
      simp only [hpt, ChallengeStore.generateProof, hi]

end

def plainRecords : Records Bytes Bytes Bytes :=
  ⟨⟨.ok, .ok⟩, ⟨.ok, .ok⟩, ⟨.ok, .ok⟩⟩

end Platform.Storage
