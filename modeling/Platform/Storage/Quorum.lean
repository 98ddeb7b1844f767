import Platform.Lib.Count
import Platform.Storage.Cluster

/-!
# Quorums in a cluster
-/

namespace Platform.Storage
open Platform.Core Lib Chain List Finset Option
open scoped Lib.Bytewise

/-! ## a put that finds its quorum -/

/-- The node holds the value that it was sent, or one that is not older. -/
def TakenIn (b : Bytes) (v : StoredValue) (s : LocalStorage) : Prop :=
  ∃ w, s.valueAt b = some w ∧ (w = v ∨ v.isNewerThan w = false)

variable {k : StorageKey} {C : Crypto} {clock : Clock} {d : DhtStorage} {ν : Type}
  {s : LocalStorage}

variable {H : DhtNetworkHandler ν} {net : ν} {link : String → Link} {m : ValueMetadata}
  {ns : List DhtNode} {r w : Nat} {rule : ReplicaRule} {v x : StoredValue}

theorem writeLoop_taken {cnt cnt' : Nat} {d' : DhtStorage} {net net' : Stores}
    (hnd : (ns.map DhtNode.id).Nodup)
    (h : DhtStorage.writeLoop C (replicas C rule clock link) clock k v ns cnt d net =
      (.ok cnt', d', net')) :
    (∀ j, j ∉ ns.map DhtNode.id → net' j = net j) ∧
    ∃ Q : Finset String, (∀ j ∈ Q, j ∈ ns.map DhtNode.id ∧ TakenIn k.toBytes v (net' j)) ∧
      cnt' = cnt + Q.card := by
  induction ns generalizing cnt d net with
  | nil =>
    cases h
    exact ⟨fun _ _ => rfl, ∅, fun j hj => absurd hj (notMem_empty j), rfl⟩
  | cons node ns ih =>
    obtain ⟨hn, hnd⟩ := nodup_cons.mp hnd
    -- what the call to this node leaves at the others
    have hfr : ∀ j, j ∉ (node :: ns).map DhtNode.id →
        ((replicas C rule clock link).putValue net node k v).2 j = net j :=
      fun j hj => deliver_of_ne net _ (ne_of_not_mem_cons hj)
    rw [DhtStorage.writeLoop] at h
    split at h
    · next u net₁ hrs =>
      rw [hrs] at hfr
      split at h
      · obtain ⟨hr, Q, hQ, hcn⟩ := ih hnd h
        have hok := deliver_ok (congrArg Prod.fst hrs)
        have htk : TakenIn k.toBytes v (net' node.id) := by
          rw [hr _ hn]
          have ha := eq_ok_of_map hok.2
          rw [show (deliver link net node.id _).2 = net₁ from congrArg Prod.snd hrs] at ha
          exact rule.accepted ha
        refine ⟨fun j hj => ?_, insert node.id Q, fun j hj => ?_, ?_⟩
        · exact (hr j (not_mem_of_not_mem_cons hj)).trans (hfr j hj)
        · rcases mem_insert.mp hj with rfl | hj
          · exact ⟨mem_cons_self, htk⟩
          · exact ⟨mem_cons_of_mem _ (hQ j hj).1, (hQ j hj).2⟩
        · rw [card_insert_of_notMem fun hin => hn (hQ _ hin).1, hcn]
          omega
      · cases h
    · next net₁ hrs =>
      rw [hrs] at hfr
      obtain ⟨hr, Q, hQ, hcn⟩ := ih hnd h
      refine ⟨fun j hj => ?_, Q, fun j hj => ?_, hcn⟩
      · exact (hr j (not_mem_of_not_mem_cons hj)).trans (hfr j hj)
      · exact ⟨mem_cons_of_mem _ (hQ j hj).1, (hQ j hj).2⟩

def DhtOp.quorumPut (config : ReplicationConfig) : DhtOp → Option (StorageKey × Bytes × Nat)
  | .put k value options | .putWithBlock k value _ options =>
    if options.localOnly = false ∧ options.quorumWrite = true then
      some (k, value, options.quorumSize.getD config.writeQuorum)
    else none
  | .get _ _ | .delete _ => none

theorem quorumPut_inv {config : ReplicationConfig} {op : DhtOp} {value : Bytes}
    (h : op.quorumPut config = some (k, value, w)) :
    ∃ opts bid, opts.localOnly = false ∧ opts.quorumWrite = true ∧
      opts.quorumSize.getD config.writeQuorum = w ∧
      ∀ {ν : Type} (C : Crypto) (H : DhtNetworkHandler ν) (clock : Clock) (d : DhtStorage)
        (net : ν),
        dhtNext C H clock d net op =
          answered .metadata (d.putWith C H clock net k value opts bid) := by
  unfold DhtOp.quorumPut at h
  split at h
  · split at h
    · next hqr =>
      cases h
      exact ⟨_, none, hqr.1, hqr.2, rfl, fun C H clock d net => rfl⟩
    · cases h
  · split at h
    · next b _ hqr =>
      cases h
      exact ⟨_, some b, hqr.1, hqr.2, rfl, fun C H clock d net => rfl⟩
    · cases h
  · cases h
  · cases h

theorem replicate_ok {sd : StoredValue} {opts : DhtPutOptions}
    (hen : d.dhtEnabled = true) (hlc : opts.localOnly = false)
    (hqr : opts.quorumWrite = true)
    (h : (d.replicate C H clock net k sd opts).1 = .ok m) :
    m = sd.metadata ∧ ∃ cnt,
      opts.quorumSize.getD d.replicationConfig.writeQuorum ≤ cnt ∧
      DhtStorage.writeLoop C H clock k sd (d.closestNodes C k) 1 d net =
        (.ok cnt, (d.replicate C H clock net k sd opts).2) := by
  have hon : ¬ (opts.localOnly = true ∨ d.dhtEnabled = false) := by
    rw [hlc, hen]
    decide
  unfold DhtStorage.replicate DhtStorage.quorumWrite at h ⊢
  rw [if_neg hon, if_pos hqr, if_neg (by rw [hen]; decide)] at h ⊢
  cases hlp : DhtStorage.writeLoop C H clock k sd (d.closestNodes C k) 1 d net with
  | mk res rest =>
    rw [hlp] at h
    cases res with
    | error err => cases h
    | ok cnt =>
      dsimp only at h ⊢
      by_cases hcn : opts.quorumSize.getD d.replicationConfig.writeQuorum ≤ cnt
      · rw [if_pos hcn] at h ⊢
        cases h
        exact ⟨rfl, cnt, hcn, rfl⟩
      · rw [if_neg hcn] at h
        cases h

section
variable {C : Crypto} {rule : ReplicaRule} {cfg : ReplicationConfig} {mbs : Finset String}
  {s : Cluster} {c : ClusterCall} {k : StorageKey} {val : Bytes}

/-- **A put that found its quorum** has been taken in by that many nodes. -/
theorem quorumPut_held (hco : Connected mbs s) (his : c.issuer ∈ mbs)
    (hpt : c.op.quorumPut cfg = some (k, val, w))
    (hok : (clusterNext C rule cfg s c).1 = .ok (.metadata m)) :
    ∃ Q ⊆ mbs, w ≤ Q.card ∧
      ∀ j ∈ Q, TakenIn k.toBytes ⟨val, m⟩ ((clusterNext C rule cfg s c).2.stores j) := by
  obtain ⟨opts, bid, hlc, hqr, hsz, hnx⟩ := quorumPut_inv hpt
  have hrun : c.run C rule cfg s = answered .metadata
      ((s.node cfg c.issuer).putWith C (replicas C rule c.clock c.link) c.clock s.stores k val
        opts bid) := hnx _ _ _ _ _
  rcases putWith_cases C (replicas C rule c.clock c.link) c.clock (s.node cfg c.issuer) s.stores
    k val opts bid with ⟨err, -, heq⟩ | ⟨e, he, heq⟩
  · rw [clusterNext_out, hrun, heq] at hok
    cases hok
  · rw [heq] at hrun
    rw [clusterNext_out, hrun] at hok
    obtain ⟨m', ho, hm⟩ := answered_ok hok
    cases hm
    obtain ⟨hm, count, hcn, hlp⟩ := replicate_ok rfl hlc hqr ho
    obtain ⟨-, Q, hQ, hsm⟩ := writeLoop_taken (nodup_closestNodes _ _ _) hlp
    have hx : e.value = ⟨val, m⟩ := by
      rw [hm, he]
      exact congrArg (fun v => StoredValue.mk v _) (data_storedFor _ _ _ _ _ _)
    have hk : ∀ j ∈ Q, j ∈ mbs.erase c.issuer := fun j hj => hco.of_closest his (hQ j hj).1
    refine ⟨insert c.issuer Q, ?_, ?_, fun j hj => ?_⟩
    · exact insert_subset his fun j hj => mem_of_mem_erase (hk j hj)
    · rw [card_insert_of_notMem fun hin => notMem_erase _ _ (hk _ hin)]
      have hw : w ≤ count := hsz ▸ hcn
      omega
    · rcases mem_insert.mp hj with rfl | hj
      · -- the caller's own write, which the marks have left in place
        refine ⟨⟨val, m⟩, ?_, .inl rfl⟩
        rw [stores_issuer, hrun]
        refine (replicate_spec C _ c.clock k _ s.stores e.value opts).value.trans ?_
        rw [← hx]
        exact congrArg (Option.map LocalEntry.value) (OrdMap.get_insert_self _ _ _)
      · rw [stores_of_ne _ _ _ _ _ (ne_of_mem_erase (hk j hj)), hrun, ← hx]
        exact (hQ j hj).2

end

/-! ## a get that hears of the value -/

/-- what a node has answered, if it has answered at all -/
def found {ν : Type} (H : DhtNetworkHandler ν) (net : ν) (node : DhtNode) (k : StorageKey) :
    Option StoredValue :=
  match (H.getValue net node k).1 with
  | .ok r => r
  | .error _ => none

theorem readLoop_cons (H : DhtNetworkHandler ν) (k : StorageKey) (quorumSize : Nat) (node : DhtNode)
    (ns : List DhtNode) (values : List StoredValue) (d : DhtStorage) (net : ν) :
    ∃ d', DhtStorage.readLoop H k quorumSize (node :: ns) values d net =
      if quorumSize ≤ (values ++ (found H net node k).toList).length then
        (values ++ (found H net node k).toList, d', (H.getValue net node k).2)
      else DhtStorage.readLoop H k quorumSize ns (values ++ (found H net node k).toList) d'
        (H.getValue net node k).2 := by
  rw [DhtStorage.readLoop, found]
  cases hrs : H.getValue net node k with
  | mk res net' =>
    cases res with
    | error err =>
      refine ⟨d.markOffline node.id, ?_⟩
      simp only [toList_none, append_nil]
    | ok r =>
      refine ⟨d, ?_⟩
      cases r with
      | none => simp only [toList_none, append_nil]
      | some v => rfl

theorem found_replicas {net : Stores} {node : DhtNode} :
    found (replicas C rule clock link) net node k = some v ↔
      link node.id = .up ∧ (net node.id).answer C (clock.atNode node.id) k = .ok (some v) := by
  have ha : (net node.id).answer C (clock.atNode node.id) k =
      (orSame (net node.id) ((net node.id).get C (clock.atNode node.id) k)).1 := by
    rw [LocalStorage.answer]
    cases (net node.id).get C (clock.atNode node.id) k <;> rfl
  unfold found replicas deliver
  dsimp only
  cases hln : link node.id with
  | up =>
    rw [ha]
    dsimp only
    cases (orSame (net node.id) ((net node.id).get C (clock.atNode node.id) k)).1 with
    | error err =>
      constructor
      · intro h
        cases h
      · rintro ⟨-, h⟩
        cases h
    | ok r =>
      constructor
      · rintro rfl
        exact ⟨rfl, rfl⟩
      · rintro ⟨-, h⟩
        cases h
        rfl
  | down | answerLost =>
    constructor
    · intro h
      cases h
    · rintro ⟨h, -⟩
      cases h

structure Heard (C : Crypto) (clock : Clock) (link : String → Link) (k : StorageKey)
    (quorumSize : Nat) (net : Stores) (ids : List String) (values : List StoredValue)
    (heard : List (String × StoredValue)) : Prop where
  from_ids : (heard.map Prod.fst).Sublist ids
  answer : ∀ p ∈ heard, (net p.1).answer C (clock.atNode p.1) k = .ok (some p.2)
  enough : quorumSize ≤ (values ++ heard.map Prod.snd).length ∨
    ∀ j ∈ ids, link j = .up →
      ∀ v, (net j).answer C (clock.atNode j) k = .ok (some v) → (j, v) ∈ heard

section
variable {C : Crypto} {rule : ReplicaRule} {clock : Clock} {link : String → Link} {k : StorageKey}
  {qs : Nat} {net net' : Stores} {ids : List String} {vals : List StoredValue}
  {heard : List (String × StoredValue)}

theorem Heard.congr (h : Heard C clock link k qs net' ids vals heard)
    (hnt : ∀ j ∈ ids, net' j = net j) : Heard C clock link k qs net ids vals heard where
  from_ids := h.from_ids
  answer p hp := by
    rw [← hnt p.1 (h.from_ids.subset (mem_map_of_mem hp))]
    exact h.answer p hp
  enough := h.enough.imp_right fun ha j hj hup v hv => ha j hj hup v ((hnt j hj).symm ▸ hv)

theorem Heard.cons_none {node : DhtNode}
    (hfn : found (replicas C rule clock link) net node k = none)
    (h : Heard C clock link k qs net ids vals heard) :
    Heard C clock link k qs net (node.id :: ids) vals heard where
  from_ids := h.from_ids.cons _
  answer := h.answer
  enough := h.enough.imp_right fun ha j hj hup v hv => by
    rcases mem_cons.mp hj with rfl | hj
    · rw [found_replicas.mpr ⟨hup, hv⟩] at hfn
      cases hfn
    · exact ha j hj hup v hv

theorem Heard.cons_some {node : DhtNode} {w : StoredValue}
    (hfn : found (replicas C rule clock link) net node k = some w)
    (h : Heard C clock link k qs net ids (vals ++ [w]) heard) :
    Heard C clock link k qs net (node.id :: ids) vals ((node.id, w) :: heard) where
  from_ids := h.from_ids.cons_cons _
  answer p hp := by
    rcases mem_cons.mp hp with rfl | hp
    · exact (found_replicas.mp hfn).2
    · exact h.answer p hp
  enough := by
    refine h.enough.imp (fun hm => ?_) fun ha j hj hup v hv => ?_
    · rwa [append_assoc] at hm
    · rcases mem_cons.mp hj with rfl | hj
      · rw [(found_replicas.mp hfn).2] at hv
        cases hv
        exact mem_cons_self
      · exact mem_cons_of_mem _ (ha j hj hup v hv)

theorem readLoop_heard (C : Crypto) (rule : ReplicaRule) (clock : Clock) (link : String → Link)
    (k : StorageKey) (qs : Nat) (vals : List StoredValue) (d : DhtStorage) (net : Stores)
    (hnd : (ns.map DhtNode.id).Nodup) :
    ∃ heard, Heard C clock link k qs net (ns.map DhtNode.id) vals heard ∧
      (DhtStorage.readLoop (replicas C rule clock link) k qs ns vals d net).1 =
        vals ++ heard.map Prod.snd := by
  induction ns generalizing vals d net with
  | nil =>
    refine ⟨[], ⟨List.Sublist.refl _, ?_, .inr ?_⟩, (append_nil vals).symm⟩
    · exact fun p hp => absurd hp not_mem_nil
    · exact fun j hj => absurd hj not_mem_nil
  | cons node ns ih =>
    obtain ⟨hn, hnd⟩ := nodup_cons.mp hnd
    obtain ⟨d', hr⟩ := readLoop_cons (replicas C rule clock link) k qs node ns vals d net
    -- what is heard after this node
    obtain ⟨heard, hh, hvl⟩ : ∃ heard, Heard C clock link k qs net
        (ns.map DhtNode.id)
        (vals ++ (found (replicas C rule clock link) net node k).toList) heard ∧
        (DhtStorage.readLoop (replicas C rule clock link) k qs (node :: ns) vals d
          net).1 = vals ++ (found (replicas C rule clock link) net node k).toList ++
            heard.map Prod.snd := by
      rw [hr]
      by_cases hsp : qs ≤ (vals ++ (found (replicas C rule clock link) net node k).toList).length
      · rw [if_pos hsp]
        refine ⟨[], ⟨nil_sublist _, ?_, .inl ?_⟩, (append_nil _).symm⟩
        · exact fun p hp => absurd hp not_mem_nil
        · rwa [map_nil, append_nil]
      · rw [if_neg hsp]
        obtain ⟨heard, hh, hvl⟩ := ih
          (vals ++ (found (replicas C rule clock link) net node k).toList) d'
          ((replicas C rule clock link).getValue net node k).2 hnd
        -- the call to this node has left the others as they were
        exact ⟨heard, hh.congr fun j hj => deliver_of_ne net _ fun heq => hn (heq ▸ hj), hvl⟩
    cases hfn : found (replicas C rule clock link) net node k with
    | none =>
      rw [hfn, toList_none, append_nil] at hh hvl
      exact ⟨heard, hh.cons_none hfn, hvl⟩
    | some w =>
      rw [hfn, toList_some] at hh hvl
      exact ⟨(node.id, w) :: heard, hh.cons_some hfn, hvl.trans (append_assoc _ _ _)⟩

end

def DhtOp.quorumGet (config : ReplicationConfig) : DhtOp → Option (StorageKey × Nat)
  | .get k options =>
    if options.localOnly = false ∧ options.quorumRead = true then
      some (k, options.quorumSize.getD config.readQuorum)
    else none
  | .put _ _ _ | .putWithBlock _ _ _ _ | .delete _ => none

theorem quorumGet_inv {op : DhtOp} (hen : d.dhtEnabled = true)
    (h : op.quorumGet d.replicationConfig = some (k, r)) :
    dhtNext C H clock d net op = answered .value (d.quorumRead C H clock.start net k r) := by
  unfold DhtOp.quorumGet at h
  split at h
  · split at h
    · next hqr =>
      cases h
      rw [dhtNext, DhtStorage.get, if_neg (by rw [hqr.1, hen]; decide), if_pos hqr.2]
    · cases h
  all_goals cases h

theorem quorumRead_ok {now : Int64} {res : Option StoredValue} (hen : d.dhtEnabled = true)
    (h : (d.quorumRead C H now net k r).1 = .ok res) :
    ∃ lr s, d.localStore.get C now k = .ok (lr, s) ∧
      res = newest (DhtStorage.readLoop H k r (d.closestNodes C k) lr.toList
        (d.withLocal s) net).1 := by
  unfold DhtStorage.quorumRead at h
  split at h
  · cases h
  · next lr s hg =>
    refine ⟨lr, s, hg, ?_⟩
    rw [if_neg (by rw [hen]; decide)] at h
    split at h
    · next hnl =>
      rw [hnl]
      cases h
      cases res <;> rfl
    · cases h
      rfl

/-- the nodes whose answer to a get arrives, the caller among them -/
def answering (members : Finset String) (c : ClusterCall) : Finset String :=
  members.filter fun j => j = c.issuer ∨ c.link j = .up

theorem answer_of_valueAt {t : Int64} (hx : s.valueAt k.toBytes = some x)
    (hlv : x.metadata.isExpired t = false) : s.answer C t k = .ok (some x) := by
  obtain ⟨e, hr, rfl⟩ := map_eq_some_iff.mp hx
  rw [answer_of_some hr, if_neg (by rw [hlv]; decide)]

section
variable {C : Crypto} {rule : ReplicaRule} {cfg : ReplicationConfig} {members : Finset String}
  {s : Cluster} {c : ClusterCall} {k : StorageKey} {r : Nat} {res : Option StoredValue}

theorem quorumGet_heard (hcn : Connected members s) (his : c.issuer ∈ members)
    (hfc : members.card ≤ cfg.replicationFactor + 1)
    (hg : c.op.quorumGet cfg = some (k, r))
    (hok : (clusterNext C rule cfg s c).1 = .ok (.value res)) :
    ∃ total : List (String × StoredValue), res = newest (total.map Prod.snd) ∧
      (total.map Prod.fst).Nodup ∧
      (∀ p ∈ total, p.1 ∈ members ∧ (s.stores p.1).valueAt k.toBytes = some p.2) ∧
      (r ≤ total.length ∨ ∀ j ∈ answering members c, ∀ x,
        (s.stores j).valueAt k.toBytes = some x →
        (∀ t, c.clock.Shows t → x.metadata.isExpired t = false) → (j, x) ∈ total) := by
  rw [clusterNext_out, ClusterCall.run, quorumGet_inv rfl hg] at hok
  obtain ⟨res', hrs, ho⟩ := answered_ok hok
  cases ho
  obtain ⟨localResult, s', hlc, rfl⟩ := quorumRead_ok rfl hrs
  obtain ⟨heard, hh, hvl⟩ := readLoop_heard C rule c.clock c.link k r
    localResult.toList ((s.node cfg c.issuer).withLocal s') s.stores
    (nodup_closestNodes C (s.node cfg c.issuer) k)
  have ha : (s.stores c.issuer).answer C c.clock.start k = .ok localResult :=
    congrArg (Except.map Prod.fst) hlc
  have hoh : ∀ j ∈ heard.map Prod.fst, j ∈ members.erase c.issuer := fun j hj =>
    hcn.of_closest his (hh.from_ids.subset hj)
  -- the caller's own value comes first
  have htt : localResult.toList ++ heard.map Prod.snd =
      (localResult.toList.map (Prod.mk c.issuer) ++ heard).map Prod.snd := by
    cases localResult <;> rfl
  refine ⟨localResult.toList.map (Prod.mk c.issuer) ++ heard, ?_, ?_, fun p hp => ?_, ?_⟩
  · rw [← htt]
    exact congrArg newest hvl
  · have hsl : c.issuer ∉ heard.map Prod.fst := fun h => notMem_erase _ _ (hoh _ h)
    have hr := hh.from_ids.nodup (nodup_closestNodes C (s.node cfg c.issuer) k)
    cases localResult with
    | none => exact hr
    | some v => exact nodup_cons.mpr ⟨hsl, hr⟩
  · rcases mem_append.mp hp with hp | hp
    · obtain ⟨v, hv, rfl⟩ := mem_map.mp hp
      rw [Option.mem_toList] at hv
      exact ⟨his, valueAt_of_answer (ha.trans (congrArg Except.ok hv))⟩
    · exact ⟨mem_of_mem_erase (hoh _ (mem_map_of_mem hp)), valueAt_of_answer (hh.answer p hp)⟩
  · refine hh.enough.imp (fun hmn => ?_) fun hal j hj x hx hlv => ?_
    · rwa [htt, length_map] at hmn
    · by_cases hsl : j = c.issuer
      · subst hsl
        have how := Except.ok.inj (ha.symm.trans (answer_of_valueAt hx (hlv _ (.inl rfl))))
        exact mem_append_left _ (mem_map_of_mem (Option.mem_toList.mpr how))
      · obtain ⟨hm, hup⟩ := (mem_filter.mp hj).imp_right fun h => h.resolve_left hsl
        have hv := answer_of_valueAt (C := C) hx (hlv _ (.inr (.inr ⟨j, rfl⟩)))
        have hor : j ∈ members.erase c.issuer := mem_erase.mpr ⟨hsl, hm⟩
        exact mem_append_right _ (hal j (hcn.closest his hfc hor) hup x hv)

/-- **A get that hears of the newest value returns it.**  The nodes `Q` hold it, and more than the
rest of the nodes have to answer. -/
theorem quorumGet_newest {Q : Finset String} (hcn : Connected members s)
    (his : c.issuer ∈ members) (hfc : members.card ≤ cfg.replicationFactor + 1)
    (hg : c.op.quorumGet cfg = some (k, r))
    (hok : (clusterNext C rule cfg s c).1 = .ok (.value res)) (hQ : Q ⊆ members)
    (hh : ∀ j ∈ Q, (s.stores j).valueAt k.toBytes = some x)
    (hnw : ∀ j ∈ members, ∀ v, (s.stores j).valueAt k.toBytes = some v →
      v = x ∨ x.isNewerThan v = true)
    (hlv : ∀ t, c.clock.Shows t → x.metadata.isExpired t = false)
    (hsz : members.card < r + Q.card)
    (ha : members.card < (answering members c).card + Q.card) : res = some x := by
  obtain ⟨total, rfl, hnd, hsr, hal⟩ := quorumGet_heard hcn his hfc hg hok
  -- a node that holds the value is among those that were heard, by counting
  have hcm : ∃ j ∈ Q, ∃ v, (j, v) ∈ total := by
    rcases hal with hmn | hal
    · have hsb : (total.map Prod.fst).toFinset ⊆ members := fun j hj => by
        obtain ⟨p, hp, rfl⟩ := mem_map.mp (mem_toFinset.mp hj)
        exact (hsr p hp).1
      have hcr : (total.map Prod.fst).toFinset.card = total.length := by
        rw [toFinset_card_of_nodup hnd, length_map]
      obtain ⟨j, hj⟩ := inter_nonempty_of_card_lt_card_add_card hsb hQ (by omega)
      obtain ⟨hjA, hjQ⟩ := mem_inter.mp hj
      obtain ⟨p, hp, rfl⟩ := mem_map.mp (mem_toFinset.mp hjA)
      exact ⟨p.1, hjQ, p.2, hp⟩
    · obtain ⟨j, hj⟩ := inter_nonempty_of_card_lt_card_add_card (filter_subset _ members) hQ ha
      obtain ⟨hjA, hjQ⟩ := mem_inter.mp hj
      exact ⟨j, hjQ, x, hal j hjA x (hh j hjQ) hlv⟩
  obtain ⟨j, hj, v, hv⟩ := hcm
  obtain rfl : x = v := some_inj.mp ((hh j hj).symm.trans (hsr _ hv).2)
  refine maxBy_of_unique StoredValue.isNewerThan_iff (mem_map_of_mem hv) fun y hy hne => ?_
  obtain ⟨p, hp, rfl⟩ := mem_map.mp hy
  obtain ⟨hm, hvl⟩ := hsr p hp
  exact (StoredValue.isNewerThan_iff _ _).mp ((hnw p.1 hm p.2 hvl).resolve_left hne)

end

/-! ## from the put to the get -/

/-- The nodes `Q` hold `x`, and the members hold nothing else that is as new. -/
def HeldAt (members Q : Finset String) (b : Bytes) (x : StoredValue) (j : String)
    (s : LocalStorage) : Prop :=
  (j ∈ Q → s.valueAt b = some x) ∧
    (j ∈ members → ∀ v, s.valueAt b = some v → v = x ∨ x.isNewerThan v = true)

section
variable {C : Crypto} {rule : ReplicaRule} {config : ReplicationConfig}
  {members Q : Finset String} {b : Bytes} {x : StoredValue}

variable {j : String} {l : ClusterCalls} {s' : LocalStorage}

theorem HeldAt.congr (h : HeldAt members Q b x j s)
    (hdt : s'.data.get b = s.data.get b) : HeldAt members Q b x j s' := by
  unfold HeldAt LocalStorage.valueAt
  rw [hdt]
  exact h

theorem HeldAt.touch {op : DhtOp} (hqt : op.rewrites = true → op.key.toBytes ≠ b)
    (hlv : ∀ t, clock.Shows t → x.metadata.isExpired t = false) (h : HeldAt members Q b x j s)
    (htc : Touch C rule clock op s s') :
    HeldAt members Q b x j s' := by
  cases htc with
  | write hop hk hef => exact h.congr (hef.data_of_ne fun heq => hqt hop (hk ▸ heq.symm))
  | accept hop ha => exact h.congr (rule.other ha b (hqt hop).symm)
  | read ht hef =>
    by_cases hb : b = op.key.toBytes
    · cases hef with
      | same => exact h
      | @expired _ _ e hr he =>
        have hg : (s.removed C op.key e).valueAt b = none := by
          rw [hb]
          exact congrArg (Option.map LocalEntry.value) (OrdMap.get_erase_self _ _)
        refine ⟨fun hj => ?_, fun _ v hv => ?_⟩
        · -- the value that has expired would be `x`
          have hx := h.1 hj
          rw [hb, LocalStorage.valueAt, hr] at hx
          cases hx
          rw [hlv _ ht] at he
          cases he
        · rw [hg] at hv
          cases hv
    · exact h.congr (hef.data_of_ne hb)

abbrev ClusterCalls := List (Call Cluster ClusterCall (StorageResult DhtOut))

theorem heldAt_run {s s' : Cluster} (hrun : MachineRun (clusterNext C rule config) s l s')
    (hqt : ∀ c ∈ l, c.input.op.rewrites = true → c.input.op.key.toBytes ≠ b)
    (hlv : ∀ c ∈ l, ∀ t, c.input.clock.Shows t → x.metadata.isExpired t = false)
    (h : ∀ j, HeldAt members Q b x j (s.stores j)) (j : String) :
    HeldAt members Q b x j (s'.stores j) := by
  have hg : ∀ c ∈ l, (c.input.op.rewrites = true → c.input.op.key.toBytes ≠ b) ∧
      ∀ t, c.input.clock.Shows t → x.metadata.isExpired t = false :=
    fun c hc => ⟨hqt c hc, hlv c hc⟩
  refine Run.guarded (P := fun s => ∀ j, HeldAt members Q b x j (s.stores j)) h ?_ hrun hg j
  intro s c s' hs hg hstep
  rw [hstep.after_eq]
  exact clusterNext_keeps c.input (fun j s s' hj htc => HeldAt.touch hg.1 hg.2 hj htc) hs

theorem connected_run {s s' : Cluster} (hrun : MachineRun (clusterNext C rule config) s l s')
    (h : Connected members s) :
    Connected members s' := by
  refine Run.invariant h (fun s c s' hs hstep => ?_) hrun
  rw [CallStep.after_eq hstep]
  exact hs.next c.input

/-- **Read after quorum write.**  A put `p` that found a quorum of `w` nodes, and a get `g` that
asks for `r` values, with `r + w` above the number of nodes: the get returns the value of the put,
if the value is newer than whatever else the nodes hold after the put, if it has not expired, and if
more than all but `w` nodes answer the get. -/
theorem read_after_quorum_write {s₀ s : Cluster} {l₁ l₂ : ClusterCalls}
    {p g : Call Cluster ClusterCall (StorageResult DhtOut)} {k : StorageKey} {value : Bytes}
    {w r : Nat} {m : ValueMetadata} {res : Option StoredValue}
    (hrun : MachineRun (clusterNext C rule config) s₀ (l₁ ++ p :: (l₂ ++ [g])) s)
    (hconn : Connected members s₀) (hfactor : members.card ≤ config.replicationFactor + 1)
    (hp : p.input.issuer ∈ members) (hg : g.input.issuer ∈ members)
    (hput : p.input.op.quorumPut config = some (k, value, w)) (hok : p.out = .ok (.metadata m))
    (hquiet : ∀ c ∈ l₂, c.input.op.rewrites = true → c.input.op.key.toBytes ≠ k.toBytes)
    (hget : g.input.op.quorumGet config = some (k, r)) (hres : g.out = .ok (.value res))
    (hsizes : members.card < r + w)
    (hnewest : ∀ j ∈ members, ∀ v, (p.after.stores j).valueAt k.toBytes = some v →
      v = ⟨value, m⟩ ∨ StoredValue.isNewerThan ⟨value, m⟩ v = true)
    (hlive : ∀ c ∈ l₂ ++ [g], ∀ t, c.input.clock.Shows t → m.isExpired t = false)
    (hanswer : members.card < (answering members g.input).card + w) :
    res = some ⟨value, m⟩ := by
  obtain ⟨s₁, hbf, hfr⟩ := hrun.split
  obtain ⟨s₂, hstep, ha⟩ := hfr.head
  obtain ⟨s₃, hbt, hls⟩ := ha.snoc_inv
  have hc₁ := connected_run hbf hconn
  rw [hstep.2.1] at hnewest
  have hot : (clusterNext C rule config s₁ p.input).1 = .ok (.metadata m) := hstep.out_eq ▸ hok
  obtain ⟨Q, hQ, hw, htk⟩ := quorumPut_held hc₁ hp hput hot
  rw [← hstep.after_eq] at htk
  -- whoever has taken the value in holds it, since nothing as new is there
  have hh : ∀ j, HeldAt members Q k.toBytes ⟨value, m⟩ j (s₂.stores j) := by
    refine fun j => ⟨fun hj => ?_, hnewest j⟩
    obtain ⟨v, hv, heq | ho⟩ := htk j hj
    · rw [hv, heq]
    · rcases hnewest j (hQ hj) v hv with heq | hnew
      · rw [hv, heq]
      · rw [hnew] at ho
        cases ho
  have hen := heldAt_run hbt hquiet (fun c hc => hlive c (mem_append_left _ hc)) hh
  have hc₃ : Connected members s₃ := connected_run hbt (hstep.after_eq ▸ hc₁.next p.input)
  exact quorumGet_newest hc₃ hg hfactor hget (hls.out_eq ▸ hres) hQ (fun j hj => (hen j).1 hj)
    (fun j hj => (hen j).2 hj) (hlive g (mem_append_right _ mem_cons_self)) (by omega)
    (by omega)

end

/-- A node that stores whatever it is sent. -/
def overwriteRule (C : Crypto) : ReplicaRule where
  accept s k v := s.putEntry C k ⟨v, .default, none⟩
  accepted {s k v s'} h := by
    cases h
    exact ⟨v, congrArg (Option.map LocalEntry.value) (OrdMap.get_insert_self _ _ _), .inl rfl⟩
  other {s k v s'} h x hx := by
    cases h
    exact OrdMap.get_insert_of_ne _ hx _

def threeNodes : Cluster where
  stores := LocalStorage.inMemory
  tables i := (["a", "b", "c"].filter (· ≠ i)).foldl (fun t j => t.addNode (.new j "")) .new

theorem connected_threeNodes : Connected {"a", "b", "c"} threeNodes := by
  unfold Connected
  decide +kernel

/-- a call at the time zero, with one of the nodes out of reach -/
def callWithout (issuer lost : String) (op : DhtOp) : ClusterCall :=
  ⟨issuer, ⟨0, 0, fun _ => 0⟩, fun j => if j = lost then .down else .up, op⟩

def callsOfThree (cs : List ClusterCall) : ClusterCalls :=
  (trace (clusterNext sampleCrypto (overwriteRule sampleCrypto) .default) threeNodes cs).1

def quorumPutOf (value : Bytes) : DhtOp := .put ⟨"n", [1]⟩ value ⟨.default, true, none⟩

def quorumGetOf : DhtOp := .get ⟨"n", [1]⟩ ⟨false, true, none⟩

def readSampleOfThree : List ClusterCall :=
  [callWithout "a" "c" (quorumPutOf [7]), callWithout "c" "b" quorumGetOf]

theorem read_after_quorum_write_three :
    ((callsOfThree readSampleOfThree).map Call.out)[1]? =
      some (.ok (.value (some (.new sampleCrypto 0 [7] (some "a"))))) := by
  obtain ⟨res, hrs⟩ : ∃ res, ((callsOfThree readSampleOfThree).map Call.out)[1]? =
      some (.ok (.value res)) := ⟨some (.new sampleCrypto 0 [7] (some "a")), by decide +kernel⟩
  have hnw : ∀ j ∈ ({"a", "b", "c"} : Finset String), ∀ v,
      ((record (clusterNext sampleCrypto (overwriteRule sampleCrypto) .default) threeNodes
        (callWithout "a" "c" (quorumPutOf [7]))).1.after.stores j).valueAt
          (StorageKey.toBytes ⟨"n", [1]⟩) = some v →
        v = ⟨[7], .new sampleCrypto 0 [7] (some "a")⟩ ∨
          StoredValue.isNewerThan ⟨[7], .new sampleCrypto 0 [7] (some "a")⟩ v = true := by
    have ha : ∀ j ∈ ({"a", "b", "c"} : Finset String),
        (((record (clusterNext sampleCrypto (overwriteRule sampleCrypto) .default) threeNodes
          (callWithout "a" "c" (quorumPutOf [7]))).1.after.stores j).valueAt
            (StorageKey.toBytes ⟨"n", [1]⟩)).all
          (fun v => v = ⟨[7], .new sampleCrypto 0 [7] (some "a")⟩) = true := by decide +kernel
    intro j hj v hv
    have h := ha j hj
    rw [hv] at h
    exact .inl (of_decide_eq_true h)
  have hx := @read_after_quorum_write sampleCrypto (overwriteRule sampleCrypto) .default
    {"a", "b", "c"} threeNodes _ [] [] _ _ ⟨"n", [1]⟩ [7] 2 2 (.new sampleCrypto 0 [7] (some "a"))
    res (machineRun_trace _ _ readSampleOfThree) connected_threeNodes (by decide) (by decide)
    (by decide) rfl (by decide +kernel) (fun c hc => absurd hc not_mem_nil) rfl
    (some_inj.mp hrs) (by decide)
    hnw (fun c hc t ht => rfl) (by decide +kernel)
  rw [hrs, hx]
  rfl

/-- Two puts at `a` without `c`, then one at `c` without `a`: the last value has the smaller
version, and a read at `a`, with all nodes in reach, returns the one before. -/
theorem quorum_read_misses_write :
    ¬ ∀ (C : Crypto) (rule : ReplicaRule) (config : ReplicationConfig) (members : Finset String)
      (s₀ s : Cluster) (l₁ l₂ : ClusterCalls)
      (p g : Call Cluster ClusterCall (StorageResult DhtOut)) (k : StorageKey) (value : Bytes)
      (m : ValueMetadata) (res : Option StoredValue),
      config.validate = .ok () → members.card = config.replicationFactor →
      members.card < config.readQuorum + config.writeQuorum → Connected members s₀ →
      MachineRun (clusterNext C rule config) s₀ (l₁ ++ p :: (l₂ ++ [g])) s →
      (∀ c ∈ l₁ ++ p :: (l₂ ++ [g]), c.input.issuer ∈ members) →
      p.input.op.quorumPut config = some (k, value, config.writeQuorum) →
      p.out = .ok (.metadata m) →
      (∀ c ∈ l₂, c.input.op.rewrites = true → c.input.op.key ≠ k) →
      g.input.op.quorumGet config = some (k, config.readQuorum) → g.out = .ok (.value res) →
      res = some ⟨value, m⟩ := by
  intro h
  let cs : List ClusterCall :=
    [callWithout "a" "c" (quorumPutOf [1]), callWithout "a" "c" (quorumPutOf [2]),
      callWithout "c" "a" (quorumPutOf [7]), callWithout "a" "" quorumGetOf]
  obtain ⟨y, hy, hne⟩ : ∃ y : StoredValue, ((callsOfThree cs).map Call.out)[3]? =
      some (.ok (.value (some y))) ∧ y ≠ .new sampleCrypto 0 [7] (some "c") :=
    ⟨⟨[2], (ValueMetadata.new sampleCrypto 0 [1] (some "a")).update sampleCrypto 0 [2] (some "a")⟩,
      by decide +kernel, by decide +kernel⟩
  have hx := h sampleCrypto (overwriteRule sampleCrypto) .default {"a", "b", "c"} threeNodes _
    ((callsOfThree cs).take 2) [] _ _ ⟨"n", [1]⟩ [7] (.new sampleCrypto 0 [7] (some "c")) (some y)
    (by decide) (by decide) (by decide) connected_threeNodes (machineRun_trace _ _ cs)
    (by decide +kernel) rfl (by decide +kernel) (fun c hc => absurd hc not_mem_nil) rfl
    (some_inj.mp hy)
  exact hne (some_inj.mp hx)

end Platform.Storage
