import Platform.Distributed.Storage
import Platform.Lib.Poll

/-!
# The outcome of a write

The votes on a pending write reach two nodes in two orders.  A node decides at the first vote that
brings one side to `required`, and forgets the operation.

* `one_side_iff`      below 2^53 validators, that is a matter of ties.
-/

namespace Platform.Distributed
open Platform.Core Lib Chain
open scoped Lib.Bytewise

/-! ## a pending write is a poll -/

def WriteOp.poll (op : WriteOp) : Poll String
  | true => op.votesYes.keySet
  | false => op.votesNo.keySet

section
variable {s : DistributedStorage} {op : WriteOp} {n : UInt64} {who : String} {approve : Bool}

theorem WriteOp.poll_vote (op : WriteOp) (who : String) (approve : Bool) :
    (op.vote who approve).poll = op.poll.vote who approve := by
  funext side
  cases approve <;> cases side
  · exact HashMap.keySet_insert _ _ _
  · exact HashMap.keySet_erase _ _
  · exact HashMap.keySet_erase _ _
  · exact HashMap.keySet_insert _ _ _

theorem WriteOp.checkConsensus_eq (op : WriteOp) (n : UInt64) :
    op.checkConsensus n = op.poll.verdict (required n) := by
  unfold checkConsensus Poll.verdict poll
  rw [HashMap.card_keySet, HashMap.card_keySet]

/-! ## votes at a node -/

/-- a vote that reaches a node at a time of its clock -/
def voteNext (opId : Bytes32) (approves : String → Bool) (s : DistributedStorage)
    (x : Nat × String) : Option Bool × DistributedStorage :=
  s.voteWrite x.1 opId x.2 (approves x.2)

/-- The node waits for the votes of `n` validators on the operation. -/
structure Awaits (n : UInt64) (opId : Bytes32) (op : WriteOp) (s : DistributedStorage) : Prop where
  total : s.totalValidators = n
  pending : s.pendingOps.lookup opId = some op

/-- The votes settle the operation at the node: the node has said so, has forgotten the operation,
and has stored its entry or not. -/
structure Settles (opId : Bytes32) (op : WriteOp) (approves : String → Bool)
    (s : DistributedStorage) (l : List (Nat × String)) (b : Bool) : Prop where
  returned : (trace (voteNext opId approves) s l).1.findSome? Call.out = some b
  dropped : (trace (voteNext opId approves) s l).2.pendingOps.lookup opId = none
  stored : (trace (voteNext opId approves) s l).2.dataTree =
    if b then s.dataTree.insert op.committedEntry.storageKey op.committedEntry else s.dataTree

variable {opId : Bytes32} {approves : String → Bool} {l : List (Nat × String)} {x : Nat × String}
  {b : Bool}

theorem trace_absent (h : s.pendingOps.lookup opId = none) (approves : String → Bool)
    (l : List (Nat × String)) :
    (trace (voteNext opId approves) s l).1.findSome? Call.out = none ∧
      (trace (voteNext opId approves) s l).2 = s := by
  induction l with
  | nil => exact ⟨rfl, rfl⟩
  | cons x l ih =>
    have hvt : voteNext opId approves s x = (none, s) := by
      rw [voteNext, DistributedStorage.voteWrite, h]
    rw [trace_cons, hvt]
    exact ih

def WriteOp.voted (approves : String → Bool) (op : WriteOp) (x : Nat × String) : WriteOp :=
  op.vote x.2 (approves x.2)

theorem committedEntry_voted (op : WriteOp) (x : Nat × String) :
    (op.voted approves x).committedEntry = op.committedEntry := by
  rw [WriteOp.committedEntry, WriteOp.voted, WriteOp.entry_vote, WriteOp.committedEntry]

variable (h : Awaits n opId op s)

section
include h

theorem voteNext_open (ho : (op.voted approves x).checkConsensus n = none) :
    voteNext opId approves s x =
      (none, { s with pendingOps := s.pendingOps.insert opId (op.voted approves x) }) := by
  obtain ⟨rfl, hp⟩ := h
  rw [WriteOp.voted] at ho
  unfold voteNext DistributedStorage.voteWrite
  rw [hp]
  dsimp only
  rw [ho]
  rfl

theorem voteNext_closing (hcl : (op.voted approves x).checkConsensus n = some b) :
    ∃ s', voteNext opId approves s x = (some b, s') ∧ s'.pendingOps.lookup opId = none ∧
      s'.dataTree =
        if b then s.dataTree.insert op.committedEntry.storageKey op.committedEntry
        else s.dataTree := by
  obtain ⟨rfl, hp⟩ := h
  rw [← committedEntry_voted op x]
  rw [WriteOp.voted] at hcl
  unfold voteNext DistributedStorage.voteWrite
  rw [hp]
  dsimp only
  rw [hcl]
  cases b with
  | true | false => exact ⟨_, rfl, AList.lookup_erase _ _, rfl⟩

theorem settles_cons_of_open (ho : (op.voted approves x).checkConsensus n = none) :
    Settles opId op approves s (x :: l) b ↔
      Settles opId (op.voted approves x) approves (voteNext opId approves s x).2 l b := by
  have hvt := voteNext_open h ho
  have hdt : (voteNext opId approves s x).2.dataTree = s.dataTree := by rw [hvt]
  have hot : (voteNext opId approves s x).1 = none := by rw [hvt]
  have hrt : (trace (voteNext opId approves) s (x :: l)).1.findSome? Call.out =
      (trace (voteNext opId approves) (voteNext opId approves s x).2 l).1.findSome? Call.out := by
    rw [trace_cons, List.findSome?_cons_of_isNone]
    rw [hot]
    rfl
  constructor
  · intro hsl
    refine ⟨hrt.symm.trans hsl.returned, hsl.dropped, ?_⟩
    rw [hdt, committedEntry_voted]
    exact hsl.stored
  · intro hsl
    refine ⟨hrt.trans hsl.returned, hsl.dropped, ?_⟩
    have hsr := hsl.stored
    rw [hdt, committedEntry_voted] at hsr
    exact hsr

theorem settles_cons_of_closing {b' : Bool}
    (hcl : (op.voted approves x).checkConsensus n = some b') :
    Settles opId op approves s (x :: l) b ↔ b' = b := by
  obtain ⟨s', hvt, hg, hdt⟩ := voteNext_closing h hcl
  obtain ⟨_, hsa⟩ := trace_absent hg approves l
  constructor
  · intro hsl
    have hrt := hsl.returned
    rw [trace_cons, hvt] at hrt
    exact Option.some_inj.mp hrt
  · intro heq
    subst heq
    refine ⟨?_, ?_, ?_⟩
    · rw [trace_cons, hvt]
      rfl
    · rw [trace_cons, hvt, hsa]
      exact hg
    · rw [trace_cons, hvt, hsa]
      exact hdt

theorem settles_iff :
    Settles opId op approves s l b ↔
      Poll.closes (required n) approves op.poll (l.map Prod.snd) = some b := by
  induction l generalizing s op with
  | nil =>
    constructor
    · intro hsl
      cases hsl.returned
    · intro hcl
      cases hcl
  | cons x l ih =>
    have hpl : op.poll.vote x.2 (approves x.2) = (op.voted approves x).poll :=
      (op.poll_vote x.2 (approves x.2)).symm
    rw [List.map_cons, Poll.closes, hpl, ← WriteOp.checkConsensus_eq]
    cases hch : (op.voted approves x).checkConsensus n with
    | none =>
      have ha : Awaits n opId (op.voted approves x) (voteNext opId approves s x).2 := by
        rw [voteNext_open h hch]
        exact ⟨h.total, AList.lookup_insert _⟩
      rw [Option.none_or, settles_cons_of_open h hch, ih ha]
    | some b' => rw [Option.some_or, Option.some_inj, settles_cons_of_closing h hch]

end

/-! ## all orders of the votes -/

variable {s' : DistributedStorage} {C : Crypto} {entry : StoredEntry} {initiator : String}
  {block : UInt64} {validators : List String}

theorem poll_new : (WriteOp.new C entry initiator block).poll true = {initiator} ∧
    (WriteOp.new C entry initiator block).poll false = ∅ := ⟨rfl, rfl⟩

def votesOf (approves : String → Bool) (validators : List String) (b : Bool) : Nat :=
  validators.countP fun v => approves v = b

theorem card_after_new (hnd : validators.Nodup) (hii : initiator ∈ validators)
    (hy : approves initiator = true) (b : Bool) :
    (Poll.after approves (WriteOp.new C entry initiator block).poll validators b).card =
      votesOf approves validators b := by
  have hsd : Poll.after approves (WriteOp.new C entry initiator block).poll validators b =
      (validators.filter fun v => approves v = b).toFinset := by
    rw [Poll.after, Finset.union_eq_right]
    cases b with
    | true =>
      intro v hv
      rw [poll_new.1, Finset.mem_singleton] at hv
      subst hv
      simp [hii, hy]
    | false =>
      rw [poll_new.2]
      exact Finset.empty_subset _
  rw [hsd, List.toFinset_card_of_nodup (hnd.filter _), votesOf, List.countP_eq_length_filter]

theorem agree_iff_closes (hs : Awaits n opId op s) (hs' : Awaits n opId op s') :
    (∀ l l', (l.map Prod.snd).Perm validators → (l'.map Prod.snd).Perm validators →
      ∃ b, Settles opId op approves s l b ∧ Settles opId op approves s' l' b) ↔
      ∀ l₁ l₂, l₁.Perm validators → l₂.Perm validators →
        ∃ b, Poll.closes (required n) approves op.poll l₁ = some b ∧
          Poll.closes (required n) approves op.poll l₂ = some b := by
  constructor
  · intro ha l₁ l₂ h₁ h₂
    have hm : ∀ l : List String,
        (l.map fun v => (0, v)).map (Prod.snd : Nat × String → String) = l := by
      intro l
      rw [List.map_map]
      exact List.map_id l
    obtain ⟨b, hb, hb'⟩ := ha (l₁.map fun v => (0, v)) (l₂.map fun v => (0, v))
      (by rw [hm]; exact h₁) (by rw [hm]; exact h₂)
    rw [settles_iff hs, hm] at hb
    rw [settles_iff hs', hm] at hb'
    exact ⟨b, hb, hb'⟩
  · intro ha l l' h h'
    obtain ⟨b, hb, hb'⟩ := ha _ _ h h'
    exact ⟨b, (settles_iff hs).mpr hb, (settles_iff hs').mpr hb'⟩

/-- For every number of validators, every vote of theirs and every two nodes: in all orders the
votes settle the operation alike exactly when one vote is enough or one side alone reaches what is
required. -/
theorem votes_agree_iff (hnodup : validators.Nodup) (hinit : initiator ∈ validators)
    (hyes : approves initiator = true)
    (hs : Awaits n opId (WriteOp.new C entry initiator block) s)
    (hs' : Awaits n opId (WriteOp.new C entry initiator block) s') :
    (∀ l l', (l.map Prod.snd).Perm validators → (l'.map Prod.snd).Perm validators →
      ∃ b, Settles opId (WriteOp.new C entry initiator block) approves s l b ∧
        Settles opId (WriteOp.new C entry initiator block) approves s' l' b) ↔
      required n ≤ 1 ∨
        Xor (required n ≤ votesOf approves validators true)
          (required n ≤ votesOf approves validators false) := by
  have hfl : (WriteOp.new C entry initiator block).poll.Follows approves := by
    intro b v hv
    cases b with
    | true =>
      rw [poll_new.1, Finset.mem_singleton] at hv
      rw [hv, hyes]
    | false => exact absurd hv (Finset.notMem_empty v)
  have hne : validators ≠ [] := List.ne_nil_of_mem hinit
  rw [agree_iff_closes hs hs']
  by_cases hon : required n ≤ 1
  · -- the initiator's own vote is enough
    have hwn : ∀ l, l.Perm validators →
        Poll.closes (required n) approves (WriteOp.new C entry initiator block).poll l =
          some true := by
      intro l hpr
      apply Poll.closes_of_won hfl (Poll.ne_nil_of_perm hpr hne)
      rw [poll_new.1, Finset.card_singleton]
      exact hon
    refine iff_of_true ?_ (.inl hon)
    intro l₁ l₂ h₁ h₂
    exact ⟨true, hwn l₁ h₁, hwn l₂ h₂⟩
  · have ho : ∀ b, ((WriteOp.new C entry initiator block).poll b).card < required n := by
      intro b
      cases b with
      | true =>
        rw [poll_new.1, Finset.card_singleton]
        omega
      | false =>
        rw [poll_new.2, Finset.card_empty]
        omega
    rw [Poll.one_outcome_iff hfl hne ho, card_after_new hnodup hinit hyes,
      card_after_new hnodup hinit hyes]
    exact ⟨.inr, fun h => h.resolve_left hon⟩

/-- an operation of the validator `a` -/
def sampleOp : WriteOp := .new sampleCrypto sampleEntry "a" 0

def waiting (n : UInt64) : DistributedStorage :=
  { DistributedStorage.new "v" with
    totalValidators := n
    pendingOps := (∅ : HashMap Bytes32 WriteOp).insert sampleOp.opId sampleOp }

theorem awaits_waiting (n : UInt64) : Awaits n sampleOp.opId sampleOp (waiting n) :=
  ⟨rfl, AList.lookup_insert _⟩

/-- Two votes of three settle the operation whichever way they come. -/
theorem votes_agree_three :
    ∃ b, Settles sampleOp.opId sampleOp (· ≠ "c") (waiting 3) [(0, "a"), (1, "b"), (2, "c")] b ∧
      Settles sampleOp.opId sampleOp (· ≠ "c") (waiting 3) [(0, "c"), (5, "b"), (6, "a")] b := by
  have hnd : ["a", "b", "c"].Nodup := by decide
  refine (votes_agree_iff hnd (by decide) (by decide) (awaits_waiting 3)
    (awaits_waiting 3)).mpr (.inr (by decide)) _ _ ?_ ?_
  · decide
  · decide

/-- With two votes on each side the order decides. -/
theorem tie_settled_by_order :
    Settles sampleOp.opId sampleOp (fun v => v = "a" || v = "b") (waiting 4)
      [(0, "a"), (1, "b"), (2, "c"), (3, "d")] true ∧
    Settles sampleOp.opId sampleOp (fun v => v = "a" || v = "b") (waiting 4)
      [(0, "c"), (1, "d"), (2, "a"), (3, "b")] false :=
  ⟨(settles_iff (awaits_waiting 4)).mpr (by decide),
    (settles_iff (awaits_waiting 4)).mpr (by decide)⟩

theorem one_side_iff (hn : validators.length = n.toNat) (hsm : n.toNat < 2 ^ 53) :
    (required n ≤ 1 ∨
      Xor (required n ≤ votesOf approves validators true)
        (required n ≤ votesOf approves validators false)) ↔
      n.toNat ≤ 2 ∨ votesOf approves validators true ≠ votesOf approves validators false := by
  have hrq : required n = (n.toNat + 1) / 2 := by
    rw [required, nearestF64, if_pos hsm]
  have hsu : votesOf approves validators true + votesOf approves validators false = n.toNat := by
    rw [← hn, votesOf, votesOf, validators.length_eq_countP_add_countP fun v => approves v = true]
    congr 2
    funext v
    cases approves v <;> rfl
  rw [hrq]
  unfold Xor
  omega

end

end Platform.Distributed
