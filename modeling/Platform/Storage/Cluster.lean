import Platform.Storage.Dht

/-!
# A cluster of storages

Nodes that know each other and call each other's local storages.  The source has no network of this
kind yet; `replicas` is one for every rule by which a node takes a value in (`ReplicaRule`), and for
every way in which the calls to the single nodes go (`Link`).
-/

namespace Platform.Storage
open Platform.Core Lib Chain DhtStorage
open scoped Lib.Bytewise

/-! ## the network -/

/-- how a call to a node goes -/
inductive Link where
  | up
  | down
  | answerLost
deriving DecidableEq

/-- What a node does with a value that is sent to it: it holds the value then, or one that is not
older, and its other entries are as they were. -/
structure ReplicaRule where
  accept : LocalStorage → StorageKey → StoredValue → StorageResult LocalStorage
  accepted : ∀ {s k v s'}, accept s k v = .ok s' →
    ∃ w, s'.valueAt k.toBytes = some w ∧ (w = v ∨ v.isNewerThan w = false)
  other : ∀ {s k v s'}, accept s k v = .ok s' →
    ∀ x, x ≠ k.toBytes → s'.data.get x = s.data.get x

abbrev Stores := String → LocalStorage

/-- A call to a node, `r` being what it comes to there. -/
def deliver {α : Type} (link : String → Link) (net : Stores) (id : String)
    (r : StorageResult (α × LocalStorage)) : StorageResult α × Stores :=
  match link id with
  | .up => ((orSame (net id) r).1, Function.update net id (orSame (net id) r).2)
  | .answerLost =>
    (.error (.internal "timeout"), Function.update net id (orSame (net id) r).2)
  | .down => (.error (.internal "unreachable"), net)

def replicas (C : Crypto) (rule : ReplicaRule) (clock : Clock) (link : String → Link) :
    DhtNetworkHandler Stores where
  getValue net node k := deliver link net node.id ((net node.id).get C (clock.atNode node.id) k)
  putValue net node k v :=
    deliver link net node.id ((rule.accept (net node.id) k v).map fun s => ((), s))
  deleteValue net node k := deliver link net node.id ((net node.id).delete C k)

structure Cluster where
  stores : Stores
  tables : String → RoutingTable

structure ClusterCall where
  issuer : String
  clock : Clock
  link : String → Link
  op : DhtOp

def Cluster.node (config : ReplicationConfig) (s : Cluster) (i : String) : DhtStorage :=
  ⟨s.stores i, s.tables i, config, true⟩

def ClusterCall.run (C : Crypto) (rule : ReplicaRule) (config : ReplicationConfig) (s : Cluster)
    (c : ClusterCall) : StorageResult DhtOut × DhtStorage × Stores :=
  dhtNext C (replicas C rule c.clock c.link) c.clock (s.node config c.issuer) s.stores c.op

def clusterNext (C : Crypto) (rule : ReplicaRule) (config : ReplicationConfig) (s : Cluster)
    (c : ClusterCall) : StorageResult DhtOut × Cluster :=
  match c.run C rule config s with
  | (out, d, net) =>
    (out, ⟨Function.update net c.issuer d.localStore,
      Function.update s.tables c.issuer d.routingTable⟩)

section
variable (C : Crypto) (rule : ReplicaRule) (cfg : ReplicationConfig) (s : Cluster)
  (c : ClusterCall)

theorem clusterNext_out : (clusterNext C rule cfg s c).1 = (c.run C rule cfg s).1 := rfl

theorem stores_issuer : (clusterNext C rule cfg s c).2.stores c.issuer =
    (c.run C rule cfg s).2.1.localStore := Function.update_self _ _ _

theorem stores_of_ne {j : String} (hj : j ≠ c.issuer) :
    (clusterNext C rule cfg s c).2.stores j = (c.run C rule cfg s).2.2 j :=
  Function.update_of_ne hj _ _

end

/-- Each node knows all others. -/
def Connected (members : Finset String) (s : Cluster) : Prop :=
  ∀ i ∈ members, (s.tables i).nodes.keySet = members.erase i

/-! ## what a call does to the local storages -/

def Clock.Shows (clock : Clock) (t : Int64) : Prop :=
  t = clock.start ∨ t = clock.again ∨ ∃ id, t = clock.atNode id

def DhtOp.rewrites : DhtOp → Bool
  | .put _ _ _ | .putWithBlock _ _ _ _ | .delete _ => true
  | .get _ _ => false

/-- All that happens to a local storage, the caller's own or another one, in one go. -/
inductive Touch (C : Crypto) (rule : ReplicaRule) (clock : Clock) (op : DhtOp) (s : LocalStorage) :
    LocalStorage → Prop
  | read {t : Int64} {s' : LocalStorage} (ht : clock.Shows t)
      (h : Effect C s (t, .get op.key) s') : Touch C rule clock op s s'
  | write {t : Int64} {lop : LocalOp} {s' : LocalStorage} (hop : op.rewrites = true)
      (hkey : lop.key = op.key) (h : Effect C s (t, lop) s') : Touch C rule clock op s s'
  | accept {v : StoredValue} {s' : LocalStorage} (hop : op.rewrites = true)
      (h : rule.accept s op.key v = .ok s') : Touch C rule clock op s s'

def LocalOp.putOf (k : StorageKey) (value : Bytes) (options : PutOptions) :
    Option UInt64 → LocalOp
  | none => .put k value options
  | some b => .putWithBlock k value b options

section
variable {C : Crypto} {s s' : LocalStorage} {k : StorageKey} {t : Int64}

/-- A call that succeeds has the effect of its operation. -/
theorem effect_of_settle {α : Type} {x : StorageResult (α × LocalStorage)} {out : α → LocalOut}
    {a : α} (h : x = .ok (a, s')) (lop : LocalOp)
    (hnx : localNext C s (t, lop) = settle s out x) : Effect C s (t, lop) s' := by
  have hef := effect_of_next C s (t, lop)
  rw [hnx, h] at hef
  exact hef

theorem effect_get {r : Option StoredValue} (h : s.get C t k = .ok (r, s')) :
    Effect C s (t, .get k) s' := effect_of_settle h (.get k) rfl

theorem effect_delete {r : Bool} (h : s.delete C k = .ok (r, s')) (t : Int64) :
    Effect C s (t, .delete k) s' := effect_of_settle h (.delete k) rfl

end

structure KeptAt (P : String → LocalStorage → Prop) (i : String) (K : Finset String)
    (d : DhtStorage) (net : Stores) : Prop where
  own : P i d.localStore
  nodes : ∀ j, P j (net j)
  table : d.routingTable.nodes.keySet = K

abbrev KeptAfter {α : Type} (P : String → LocalStorage → Prop) (i : String) (K : Finset String)
    (r : α × DhtStorage × Stores) : Prop := KeptAt P i K r.2.1 r.2.2

section
variable {C : Crypto} {rule : ReplicaRule} {clk : Clock} {link : String → Link} {op : DhtOp}
  {P : String → LocalStorage → Prop} {i : String} {K : Finset String} {d : DhtStorage}
  {net : Stores}

theorem eq_ok_of_map {x : StorageResult LocalStorage} {s : LocalStorage} {u : Unit}
    (h : (x.map fun s => ((), s)) = .ok (u, s)) : x = .ok s := by
  cases x with
  | error err => cases h
  | ok s' =>
    cases h
    rfl

variable {α : Type} {id : String}

theorem deliver_of_ne (net : Stores) {j : String} (r : StorageResult (α × LocalStorage))
    (hj : j ≠ id) : (deliver link net id r).2 j = net j := by
  unfold deliver
  split
  · exact Function.update_of_ne hj _ _
  · exact Function.update_of_ne hj _ _
  · rfl

theorem deliver_ok {r : StorageResult (α × LocalStorage)} {a : α}
    (h : (deliver link net id r).1 = .ok a) :
    link id = .up ∧ r = .ok (a, (deliver link net id r).2 id) := by
  unfold deliver at h ⊢
  split at h
  · next hup =>
    refine ⟨hup, ?_⟩
    dsimp only
    rw [Function.update_self]
    cases r with
    | error err => cases h
    | ok p =>
      cases h
      rfl
  · cases h
  · cases h

theorem deliver_keeps {r : StorageResult (α × LocalStorage)} (hnt : ∀ j, P j (net j))
    (hr : ∀ a s, r = .ok (a, s) → P id s) (j : String) :
    P j ((deliver link net id r).2 j) := by
  by_cases hj : j = id
  · subst hj
    have hs : P j (orSame (net j) r).2 := by
      cases r with
      | error err => exact hnt j
      | ok p => exact hr p.1 p.2 rfl
    unfold deliver
    split
    · dsimp only
      rwa [Function.update_self]
    · dsimp only
      rwa [Function.update_self]
    · exact hnt j
  · rw [deliver_of_ne net r hj]
    exact hnt j

theorem KeptAt.withLocal {s : LocalStorage} (h : KeptAt P i K d net) (hs : P i s) :
    KeptAt P i K (d.withLocal s) net := ⟨hs, h.nodes, h.table⟩

theorem KeptAt.markOffline (h : KeptAt P i K d net) (nid : String) :
    KeptAt P i K (d.markOffline nid) net := by
  refine ⟨h.own, h.nodes, ?_⟩
  rw [← h.table]
  exact HashMap.keySet_mapValues _ _

theorem KeptAt.deliver {r : StorageResult (α × LocalStorage)} (h : KeptAt P i K d net)
    (hr : ∀ a s, r = .ok (a, s) → P id s) :
    KeptAt P i K d (deliver link net id r).2 :=
  ⟨h.own, deliver_keeps h.nodes hr, h.table⟩

variable (hP : ∀ j s s', P j s → Touch C rule clk op s s' → P j s')
include hP

theorem readLoop_keeps (qs : Nat) (ns : List DhtNode) (vals : List StoredValue)
    (h : KeptAt P i K d net) :
    KeptAfter P i K (readLoop (replicas C rule clk link) op.key qs ns vals d net) := by
  induction ns generalizing vals d net with
  | nil => exact h
  | cons node ns ih =>
    have hn : KeptAt P i K d ((replicas C rule clk link).getValue net node op.key).2 := by
      refine h.deliver fun r s hg => hP node.id _ s (h.nodes _) (.read ?_ (effect_get hg))
      exact .inr (.inr ⟨node.id, rfl⟩)
    rw [readLoop]
    split
    · next hrs =>
      rw [hrs] at hn
      split
      · exact hn
      · exact ih _ hn
    · next hrs =>
      rw [hrs] at hn
      split
      · exact hn
      · exact ih _ hn
    · next hrs =>
      rw [hrs] at hn
      split
      · exact hn.markOffline node.id
      · exact ih _ (hn.markOffline node.id)

theorem quorumRead_keeps {now : Int64} (hnw : clk.Shows now) (qs : Nat)
    (h : KeptAt P i K d net) :
    KeptAfter P i K (d.quorumRead C (replicas C rule clk link) now net op.key qs) := by
  unfold quorumRead
  split
  · exact h
  · next s hg =>
    have hlc := h.withLocal (hP i _ s h.own (.read hnw (effect_get hg)))
    split
    · exact hlc
    · split
      · exact hlc
      · exact readLoop_keeps hP qs _ _ hlc

theorem get_keeps (opts : GetOptions) (h : KeptAt P i K d net) :
    KeptAfter P i K (d.get C (replicas C rule clk link) clk net op.key opts) := by
  have hlc : ∀ {r s}, d.localStore.get C clk.start op.key = .ok (r, s) →
      KeptAt P i K (d.withLocal s) net := fun hg =>
    h.withLocal (hP i _ _ h.own (.read (.inl rfl) (effect_get hg)))
  unfold DhtStorage.get
  split
  · split
    · exact h
    · next hg => exact hlc hg
  · split
    · exact quorumRead_keeps hP (.inl rfl) _ h
    · split
      · exact h
      · next hg => exact hlc hg
      · next hg => exact quorumRead_keeps hP (.inr (.inl rfl)) 1 (hlc hg)

variable (hop : op.rewrites = true)
include hop

theorem writeLoop_keeps (link : String → Link) (val : StoredValue) (ns : List DhtNode)
    (cnt : Nat) (h : KeptAt P i K d net) :
    KeptAfter P i K (writeLoop C (replicas C rule clk link) clk op.key val ns cnt d net) := by
  induction ns generalizing cnt d net with
  | nil => exact h
  | cons node ns ih =>
    have hn : KeptAt P i K d ((replicas C rule clk link).putValue net node op.key val).2 := by
      exact h.deliver fun r s ha => hP node.id _ s (h.nodes _) (.accept hop (eq_ok_of_map ha))
    rw [writeLoop]
    split
    · next hrs =>
      rw [hrs] at hn
      split
      · next s hm =>
        have hse := congrArg (Except.map fun s => ((), s)) hm
        exact ih _ (hn.withLocal (hP i _ s hn.own
          (.write hop rfl (effect_of_settle hse (.markReplicated op.key node.id) rfl))))
      · exact hn
    · next hrs =>
      rw [hrs] at hn
      exact ih _ (hn.markOffline node.id)

theorem quorumWrite_keeps (link : String → Link) (val : StoredValue) (qs : Nat)
    (h : KeptAt P i K d net) :
    KeptAfter P i K (d.quorumWrite C (replicas C rule clk link) clk net op.key val qs) := by
  have hlp := writeLoop_keeps hP hop link val (d.closestNodes C op.key) 1 h
  unfold quorumWrite
  split
  · exact h
  · split
    · next hrs =>
      rw [hrs] at hlp
      exact hlp
    · next hrs =>
      rw [hrs] at hlp
      split <;> exact hlp

theorem replicate_keeps (sd : StoredValue) (opts : DhtPutOptions)
    (h : KeptAt P i K d net) :
    KeptAfter P i K (d.replicate C (replicas C rule clk link) clk net op.key sd opts) := by
  unfold replicate
  split
  · exact h
  · split
    · have hwr := quorumWrite_keeps hP hop link sd
        (opts.quorumSize.getD d.replicationConfig.writeQuorum) h
      split <;> next hrs =>
        rw [hrs] at hwr
        exact hwr
    · exact quorumWrite_keeps hP hop link sd 1 h

theorem putWith_keeps (link : String → Link) (val : Bytes) (opts : DhtPutOptions)
    (bid : Option UInt64) (h : KeptAt P i K d net) :
    KeptAfter P i K (d.putWith C (replicas C rule clk link) clk net op.key val opts bid) := by
  unfold putWith
  split
  · exact h
  · next metadata s hpt =>
    have hef : Effect C d.localStore (clk.start, .putOf op.key val opts.localOptions bid) s := by
      cases bid <;> exact effect_of_settle hpt _ rfl
    exact replicate_keeps hP hop _ opts
      (h.withLocal (hP i _ s h.own (.write hop (by cases bid <;> rfl) hef)))

theorem delete_keeps (link : String → Link) (h : KeptAt P i K d net) :
    KeptAfter P i K (d.delete C (replicas C rule clk link) net op.key) := by
  have hlp : ∀ (ns : List DhtNode) (net : Stores), (∀ j, P j (net j)) →
      ∀ j, P j (ns.foldl
        (fun net node => ((replicas C rule clk link).deleteValue net node op.key).2) net j) := by
    intro ns
    induction ns with
    | nil => exact fun net hnt => hnt
    | cons node ns ih =>
      intro net hnt
      refine ih _ (deliver_keeps hnt fun r s hdl => ?_)
      exact hP node.id _ s (hnt _) (.write hop rfl (effect_delete hdl clk.start))
  unfold delete
  split
  · exact h
  · next s hdl =>
    have hlc := h.withLocal (hP i _ s h.own (.write hop rfl (effect_delete hdl clk.start)))
    split
    · exact hlc
    · exact ⟨hlc.own, hlp _ net h.nodes, h.table⟩

end

variable {C : Crypto} {d : DhtStorage} {rule : ReplicaRule}

/-- **What every touch keeps, a call keeps**, at the node that makes it and at all others. -/
theorem dhtNext_keeps {clock : Clock} {op : DhtOp} {P : String → LocalStorage → Prop} {i : String}
    {K : Finset String} {net : Stores} (hP : ∀ j s s', P j s → Touch C rule clock op s s' → P j s')
    (link : String → Link) (h : KeptAt P i K d net) :
    KeptAfter P i K (dhtNext C (replicas C rule clock link) clock d net op) := by
  cases op with
  | put k val opts => exact putWith_keeps hP rfl link val opts none h
  | putWithBlock k val b opts => exact putWith_keeps hP rfl link val opts (some b) h
  | get k opts => exact get_keeps hP opts h
  | delete k => exact delete_keeps hP rfl link h

theorem clusterNext_keeps {config : ReplicationConfig} {P : String → LocalStorage → Prop}
    {s : Cluster} (c : ClusterCall) (hP : ∀ j s s', P j s → Touch C rule c.clock c.op s s' → P j s')
    (h : ∀ j, P j (s.stores j)) (j : String) :
    P j ((clusterNext C rule config s c).2.stores j) := by
  have hk := dhtNext_keeps hP c.link
    (⟨h c.issuer, h, rfl⟩ : KeptAt P c.issuer _ (s.node config c.issuer) s.stores)
  by_cases hj : j = c.issuer
  · rw [hj, stores_issuer]
    exact hk.own
  · rw [stores_of_ne _ _ _ _ _ hj]
    exact hk.nodes j

theorem Connected.next {config : ReplicationConfig} {members : Finset String} {s : Cluster}
    (h : Connected members s) (c : ClusterCall) :
    Connected members (clusterNext C rule config s c).2 := by
  intro i hi
  rw [← h i hi]
  have hk := @dhtNext_keeps C (s.node config c.issuer) rule c.clock c.op
    (fun _ _ => True) c.issuer _ s.stores (fun _ _ _ _ _ => trivial) c.link
    ⟨trivial, fun _ => trivial, rfl⟩
  show (Function.update s.tables c.issuer _ i).nodes.keySet = _
  by_cases hi : i = c.issuer
  · rw [hi, Function.update_self]
    exact hk.table
  · rw [Function.update_of_ne hi]

/-! ## the closest nodes -/

theorem RoutingTable.map_id_values (table : RoutingTable) :
    table.nodes.values.map DhtNode.id = table.nodes.keys := by
  rw [HashMap.values, List.map_map]
  refine List.map_congr_left fun e he => ?_
  exact table.own_id e.1 e.2 ((HashMap.lookup_iff_mem _ _ _).mpr he)

theorem nodup_closestNodes (C : Crypto) (d : DhtStorage) (k : StorageKey) :
    ((d.closestNodes C k).map DhtNode.id).Nodup := by
  have hs := (List.perm_insertionSort (fun a b : DhtNode =>
    xorDistance (hashNodeId C a.id) (k.hash C) ≤ xorDistance (hashNodeId C b.id) (k.hash C))
      d.routingTable.nodes.values).map DhtNode.id
  refine ((List.take_sublist _ _).map _).nodup (hs.nodup_iff.mpr ?_)
  rw [d.routingTable.map_id_values]
  exact d.routingTable.nodes.keys_nodup

section
variable {C : Crypto} {cfg : ReplicationConfig} {mbs : Finset String} {s : Cluster}
  {i j : String} {k : StorageKey}

theorem Connected.of_closest (hcn : Connected mbs s) (hi : i ∈ mbs)
    (h : j ∈ ((s.node cfg i).closestNodes C k).map DhtNode.id) : j ∈ mbs.erase i := by
  rw [← hcn i hi, HashMap.mem_keySet, AList.mem_keys, ← (s.tables i).map_id_values]
  have hs := ((List.take_sublist _ _).map DhtNode.id).subset h
  exact ((List.perm_insertionSort _ _).map DhtNode.id).mem_iff.mp hs

theorem Connected.closest (hcn : Connected mbs s) (hi : i ∈ mbs)
    (hfc : mbs.card ≤ cfg.replicationFactor + 1) (hj : j ∈ mbs.erase i) :
    j ∈ ((s.node cfg i).closestNodes C k).map DhtNode.id := by
  have htb : (s.tables i).nodes.keySet = mbs.erase i := hcn i hi
  have hsz : (s.tables i).nodes.size ≤ cfg.replicationFactor := by
    rw [← HashMap.card_keySet, htb, Finset.card_erase_of_mem hi]
    exact Nat.sub_le_of_le_add hfc
  rw [← htb, HashMap.mem_keySet, AList.mem_keys, ← (s.tables i).map_id_values] at hj
  unfold closestNodes RoutingTable.findClosest
  rw [List.take_of_length_le]
  · exact ((List.perm_insertionSort _ _).map _).mem_iff.mpr hj
  · rw [List.length_insertionSort, HashMap.values, List.length_map]
    exact hsz

end

end Platform.Storage
