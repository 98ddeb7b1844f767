import Platform.Consensus.Invariant
import Platform.Lib.Tally

/-!
# The order in which votes are delivered

While prepares and commits of one round come in, the engine is a counter of two ballots
(`Platform.Lib.Tally`): `Counts` relates the two, `Counts.deliver` is one delivery and
`counts_deliverAll` a whole list of them.  The commit quorum is tested in `handle_commit` only, so
commits that all come before the prepare quorum decide nothing.
-/

namespace Platform.Consensus
open Lib Platform.Core

inductive VoteMsg where
  | prepare (p : PrepareMessage)
  | commit (c : CommitMessage)
deriving DecidableEq

namespace VoteMsg

def op : VoteMsg → Op
  | .prepare p => .handlePrepare p
  | .commit c => .handleCommit c

def ballot : VoteMsg → Ballot Hotkey
  | .prepare p => .first p.validator
  | .commit c => .second c.validator

def ValidFor (C : Crypto) (env : Env) (r : ConsensusRound) : VoteMsg → Prop
  | .prepare p => p.view = r.view ∧ p.sequence = r.sequence ∧ p.proposalHash = r.proposalHash ∧
      env.verifySignature C p.validator p.signingBytes p.signature = .ok true
  | .commit c => c.view = r.view ∧ c.sequence = r.sequence ∧ c.proposalHash = r.proposalHash ∧
      env.verifySignature C c.validator c.signingBytes c.signature = .ok true

instance (C : Crypto) (env : Env) (r : ConsensusRound) :
    ∀ m : VoteMsg, Decidable (m.ValidFor C env r)
  | .prepare _ => inferInstanceAs (Decidable (_ ∧ _))
  | .commit _ => inferInstanceAs (Decidable (_ ∧ _))

end VoteMsg

def deliver (C : Crypto) (e : Engine) (d : Env × VoteMsg) : Engine := (step C d.1 e d.2.op).2

def deliverAll (C : Crypto) (e : Engine) (l : List (Env × VoteMsg)) : Engine :=
  l.foldl (deliver C) e

def ballots (l : List (Env × VoteMsg)) : List (Ballot Hotkey) := l.map fun d => d.2.ballot

/-! ## the engine as a counter -/

def stagePhase : Stage → ConsensusPhase
  | .waiting => .prePrepare
  | .ready => .prepared
  | .declared => .committed

structure SameVote (r r' : ConsensusRound) : Prop where
  view : r'.view = r.view
  sequence : r'.sequence = r.sequence
  hash : r'.proposalHash = r.proposalHash
  proposal : r'.proposal = r.proposal

/-- The engine, with the round `r` at the start, has come to the state `t` of the counter. -/
inductive Counts (own : Hotkey) (r : ConsensusRound) (e : Engine) (t : Tally Hotkey) : Prop
  | counting (r' : ConsensusRound) (hstage : t.stage ≠ .declared) (hown : e.keypair.hotkey = own)
      (hr : e.currentRound = some r') (hsame : SameVote r r')
      (hphase : r'.phase = stagePhase t.stage) (hprepares : r'.prepares.keySet = t.first)
      (hcommits : r'.commits.keySet = t.second) (hopen : r.sequence ∉ e.decisions)
  | closed (hstage : t.stage = .declared) (hdec : r.sequence ∈ e.decisions)
      (hround : ∀ r', e.currentRound = some r' → r'.phase = .committed)

theorem Counts.decided_iff {own : Hotkey} {r : ConsensusRound} {e : Engine} {t : Tally Hotkey}
    (h : Counts own r e t) : r.sequence ∈ e.decisions ↔ t.stage = .declared := by
  cases h with
  | counting r' hst how hr hsm hph hp hc ho =>
    exact ⟨fun hd => absurd hd ho, fun hs => absurd hs hst⟩
  | closed hst hdc _ => exact ⟨fun _ => hst, fun _ => hdc⟩

section
variable {C : Crypto} {env : Env} {e : Engine} {r r' : ConsensusRound} {own : Hotkey}
  {t : Tally Hotkey}

theorem deliver_prepare (p : PrepareMessage) (hr : e.currentRound = some r')
    (hc : checkPrepare C env r' p = .ok ()) :
    deliver C e (env, .prepare p) =
      if p.validator ∈ r'.prepares then e
      else if env.quorumSize ≤ (addPrepare r' p).prepares.size ∧ r'.phase = .prePrepare then
        { e with currentRound := some (addOwnCommit (addPrepare r' p)
            (createCommitInternal C env e r'.view r'.sequence r'.proposalHash)) }
      else { e with currentRound := some (addPrepare r' p) } := by
  show (handlePrepare C env e p).2 = _
  unfold handlePrepare
  rw [hr]
  dsimp only
  rw [hc]
  by_cases hin : p.validator ∈ r'.prepares
  · rw [if_pos hin, if_pos hin]
  · rw [if_neg hin, if_neg hin]
    by_cases hq : env.quorumSize ≤ (addPrepare r' p).prepares.size ∧ r'.phase = .prePrepare
    · rw [if_pos hq]
      exact congrArg Prod.snd (if_pos hq)
    · rw [if_neg hq]
      exact congrArg Prod.snd (if_neg hq)

theorem deliver_commit (c : CommitMessage) (hr : e.currentRound = some r')
    (hc : checkCommit C env r' c = .ok ()) :
    deliver C e (env, .commit c) =
      if c.validator ∈ r'.commits then e
      else if env.quorumSize ≤ (addCommit r' c).commits.size ∧ r'.phase = .prepared then
        (decideRound e (addCommit r' c)).2
      else { e with currentRound := some (addCommit r' c) } := by
  show (handleCommit C env e c).2 = _
  unfold handleCommit
  rw [hr]
  dsimp only
  rw [hc]
  by_cases hin : c.validator ∈ r'.commits
  · rw [if_pos hin, if_pos hin]
  · rw [if_neg hin, if_neg hin]
    by_cases hq : env.quorumSize ≤ (addCommit r' c).commits.size ∧ r'.phase = .prepared
    · rw [if_pos hq]
      exact congrArg Prod.snd (if_pos hq)
    · rw [if_neg hq]
      exact congrArg Prod.snd (if_neg hq)

theorem decideRound_closes {p : ConsensusProposal} (hp : r'.proposal = some p) :
    r'.sequence ∈ (decideRound e r').2.decisions ∧
      ∀ x, (decideRound e r').2.currentRound = some x → x.phase = .committed := by
  unfold decideRound
  rw [hp]
  dsimp only
  by_cases ho : e.nextSequence = UInt64.ofNat (2 ^ 64 - 1)
  · rw [if_pos ho]
    refine ⟨(AList.mem_insert _).mpr (Or.inl rfl), fun x hx => ?_⟩
    rw [← Option.some.inj hx]
    rfl
  · rw [if_neg ho]
    exact ⟨(AList.mem_insert _).mpr (Or.inl rfl), fun x hx => nomatch hx⟩

theorem Counts.prepare (h : Counts own r e t) (p : PrepareMessage)
    (hv : (VoteMsg.prepare p).ValidFor C env r) (hst : t.stage ≠ .declared) :
    Counts own r (deliver C e (env, .prepare p))
      (t.add env.quorumSize own (.first p.validator)) := by
  cases h with
  | closed hs => exact absurd hs hst
  | counting r' _ how hr hsm hph hp hc ho =>
    have hch : checkPrepare C env r' p = .ok () := by
      rw [checkPrepare_ok_iff, hsm.view, hsm.sequence, hsm.hash]
      exact hv
    have hse : (addPrepare r' p).prepares.keySet = insert p.validator t.first := by
      rw [← hp]
      exact HashMap.keySet_insert _ _ _
    have hsz : (addPrepare r' p).prepares.size = (insert p.validator t.first).card := by
      rw [← hse, HashMap.card_keySet]
    have hm : p.validator ∈ r'.prepares ↔ p.validator ∈ t.first := by
      rw [← hp, HashMap.mem_keySet]
    have hwt : r'.phase = .prePrepare ↔ t.stage = .waiting := by
      rw [hph]
      cases t.stage <;> simp [stagePhase]
    rw [deliver_prepare p hr hch, hsz, Tally.add]
    simp only [hm, hwt]
    by_cases hin : p.validator ∈ t.first
    · rw [if_pos hin, if_pos hin]
      exact .counting r' hst how hr hsm hph hp hc ho
    · rw [if_neg hin, if_neg hin]
      by_cases hq : env.quorumSize ≤ (insert p.validator t.first).card ∧ t.stage = .waiting
      · rw [if_pos hq, if_pos hq]
        refine .counting _ (by simp) how rfl
          ⟨hsm.view, hsm.sequence, hsm.hash, hsm.proposal⟩ rfl hse ?_ ho
        show HashMap.keySet (AList.insert e.keypair.hotkey _ r'.commits) = insert own t.second
        rw [HashMap.keySet_insert, how, hc]
      · rw [if_neg hq, if_neg hq]
        exact .counting _ hst how rfl
          ⟨hsm.view, hsm.sequence, hsm.hash, hsm.proposal⟩ hph hse hc ho

theorem Counts.commit (h : Counts own r e t) (c : CommitMessage)
    (hv : (VoteMsg.commit c).ValidFor C env r) (hpp : r.proposal ≠ none)
    (hst : t.stage ≠ .declared) :
    Counts own r (deliver C e (env, .commit c))
      (t.add env.quorumSize own (.second c.validator)) := by
  cases h with
  | closed hs => exact absurd hs hst
  | counting r' _ how hr hsm hph hp hc ho =>
    have hch : checkCommit C env r' c = .ok () := by
      rw [checkCommit_ok_iff, hsm.view, hsm.sequence, hsm.hash]
      exact hv
    have hse : (addCommit r' c).commits.keySet = insert c.validator t.second := by
      rw [← hc]
      exact HashMap.keySet_insert _ _ _
    have hsz : (addCommit r' c).commits.size = (insert c.validator t.second).card := by
      rw [← hse, HashMap.card_keySet]
    have hm : c.validator ∈ r'.commits ↔ c.validator ∈ t.second := by
      rw [← hc, HashMap.mem_keySet]
    have hrd : r'.phase = .prepared ↔ t.stage = .ready := by
      rw [hph]
      cases t.stage <;> simp [stagePhase]
    rw [deliver_commit c hr hch, hsz, Tally.add]
    simp only [hm, hrd]
    by_cases hin : c.validator ∈ t.second
    · rw [if_pos hin, if_pos hin]
      exact .counting r' hst how hr hsm hph hp hc ho
    · rw [if_neg hin, if_neg hin]
      by_cases hq : env.quorumSize ≤ (insert c.validator t.second).card ∧ t.stage = .ready
      · rw [if_pos hq, if_pos hq]
        obtain ⟨pr, hpr⟩ := Option.ne_none_iff_exists'.mp hpp
        have hpr' : (addCommit r' c).proposal = some pr := hsm.proposal.trans hpr
        obtain ⟨hd, hrn⟩ := decideRound_closes hpr'
        have hsq : (addCommit r' c).sequence = r.sequence := hsm.sequence
        rw [hsq] at hd
        exact .closed rfl hd hrn
      · rw [if_neg hq, if_neg hq]
        exact .counting _ hst how rfl
          ⟨hsm.view, hsm.sequence, hsm.hash, hsm.proposal⟩ hph hp hse ho

theorem Counts.after (h : Counts own r e t) (hst : t.stage = .declared) (m : VoteMsg) (q : ℕ) :
    Counts own r (deliver C e (env, m)) (t.add q own m.ballot) := by
  have hs' : (t.add q own m.ballot).stage = .declared := by
    cases m <;> simp only [VoteMsg.ballot, Tally.add, hst, reduceCtorEq, and_false, if_false] <;>
      split <;> simp [hst]
  cases h with
  | counting _ hs => exact absurd hst hs
  | closed _ hd hrn =>
    have ht : Trans C env e m.op _ (deliver C e (env, m)) := step_trans C env e m.op
    generalize (step C env e m.op).1 = out at ht
    generalize deliver C e (env, m) = e' at ht ⊢
    cases m with
    | prepare p =>
      cases ht with
      | rejected => exact .closed hs' hd hrn
      | prepareCounted r' _ hr =>
        refine .closed hs' hd fun x hx => ?_
        rw [← Option.some.inj hx]
        exact hrn r' hr
      | prepareQuorum r' _ c hr hc hn hq hp =>
        rw [hrn r' hr] at hp
        cases hp
    | commit c =>
      cases ht with
      | rejected => exact .closed hs' hd hrn
      | commitCounted r' _ hr =>
        refine .closed hs' hd fun x hx => ?_
        rw [← Option.some.inj hx]
        exact hrn r' hr
      | decided r' _ p hr hc hn hq hph =>
        rw [hrn r' hr] at hph
        cases hph
      | noProposal =>
        refine .closed hs' hd fun x hx => ?_
        rw [← Option.some.inj hx]
        rfl
      | overflow =>
        refine .closed hs' ((AList.mem_insert _).mpr (Or.inr hd)) fun x hx => ?_
        rw [← Option.some.inj hx]
        rfl

/-- **One delivery is one step of the counter.** -/
theorem Counts.deliver (h : Counts own r e t) (hpr : r.proposal ≠ none) (m : VoteMsg)
    (hv : m.ValidFor C env r) :
    Counts own r (deliver C e (env, m)) (t.add env.quorumSize own m.ballot) := by
  by_cases hs : t.stage = .declared
  · exact h.after hs m _
  · cases m with
    | prepare p => exact h.prepare p hv hs
    | commit c => exact h.commit c hv hpr hs

/-- **A list of deliveries is a count.** -/
theorem counts_deliverAll {q : ℕ} (hpr : r.proposal ≠ none) (l : List (Env × VoteMsg))
    (hv : ∀ d ∈ l, d.1.quorumSize = q ∧ d.2.ValidFor C d.1 r) (h : Counts own r e t) :
    Counts own r (deliverAll C e l) (t.count q own (ballots l)) := by
  induction l generalizing e t with
  | nil => exact h
  | cons d l ih =>
    obtain ⟨hd, hl⟩ := List.forall_mem_cons.mp hv
    have h1 := h.deliver hpr d.2 hd.2
    rw [hd.1] at h1
    exact ih hl h1

end
/-! ## the order of delivery -/

/-- **Delivery order.**  Let valid votes for the active round of a reachable engine be delivered,
one prepare and one commit per validator, and let the commits, counting the engine's own, be a
quorum. The engine ends with a decision if and only if a commit of another validator is delivered
after a delivered prepare has completed the prepare quorum. -/
theorem delivery_decides_iff (C : Crypto) (kp : Keypair) (evs : List Event) (e : Engine)
    (hrun : EngineRun C kp evs e) (r : ConsensusRound) (hr : e.currentRound = some r)
    (hph : r.phase = .prePrepare) (q : ℕ) (l : List (Env × VoteMsg))
    (hv : ∀ d ∈ l, d.1.quorumSize = q ∧ d.2.ValidFor C d.1 r)
    (hfresh : Fresh r.prepares.keySet r.commits.keySet (ballots l))
    (hcommits : q ≤ (insert kp.hotkey (r.commits.keySet ∪ (seconds (ballots l)).toFinset)).card) :
    r.sequence ∈ (deliverAll C e l).decisions ↔ Late q kp.hotkey r.prepares.keySet (ballots l) := by
  have hst := hrun.stateInv
  have hok := hst.round r hr
  have hsr : Counts kp.hotkey r e ⟨r.prepares.keySet, r.commits.keySet, .waiting⟩ := by
    refine .counting r (by simp) ?_ hr ⟨rfl, rfl, rfl, rfl⟩ hph rfl rfl ?_
    · rw [hst.keypair]
    · -- decided are only the sequences below the one of the round
      rw [hst.keys, hok.sequence]
      omega
  have hen := counts_deliverAll hok.proposal_ne_none l hv hsr
  rw [hen.decided_iff]
  exact declared_iff hfresh hcommits

def sampleOpen (data : Bytes) : List Event × Engine :=
  calls sampleCrypto (sampleKey 1)
    [(sampleEnv 1 1, .handleProposal (sampleProposal .weightUpdate data))]

def sampleOpenRound : ConsensusRound := (sampleOpen [7]).2.currentRound.get (by decide +kernel)

def sampleVotes (ms : List VoteMsg) : List (Env × VoteMsg) := ms.map fun m => (sampleEnv 1 2, m)

def votesInOrder : List (Env × VoteMsg) :=
  sampleVotes [.prepare (samplePrepare 2 [7]), .prepare (samplePrepare 3 [7]),
    .commit (sampleCommit 2 [7]), .commit (sampleCommit 3 [7])]

def votesReversed : List (Env × VoteMsg) :=
  sampleVotes [.commit (sampleCommit 2 [7]), .commit (sampleCommit 3 [7]),
    .prepare (samplePrepare 2 [7]), .prepare (samplePrepare 3 [7])]

/-- Prepares first: the engine decides. -/
theorem delivery_prepares_first :
    sampleOpenRound.sequence ∈
      (deliverAll sampleCrypto (sampleOpen [7]).2 votesInOrder).decisions :=
  (delivery_decides_iff sampleCrypto (sampleKey 1) _ _ (engineRun_calls _ _ _ (by decide +kernel))
    sampleOpenRound (Option.some_get _).symm (by decide +kernel) 3 votesInOrder (by decide +kernel)
    (by decide +kernel) (by decide +kernel)).mpr
    ⟨[.first (.ofByte 2), .first (.ofByte 3)], .ofByte 2, [.second (.ofByte 3)], rfl,
      by decide +kernel, by decide +kernel, by decide +kernel⟩

/-- **Commits first: the engine never decides**, although a quorum of prepares and a quorum of
commits have been delivered. -/
theorem delivery_commits_first :
    ¬ ∀ (C : Crypto) (kp : Keypair) (evs : List Event) (e : Engine), EngineRun C kp evs e →
      ∀ r : ConsensusRound, e.currentRound = some r → r.phase = .prePrepare →
      ∀ (q : ℕ) (l : List (Env × VoteMsg)),
      (∀ d ∈ l, d.1.quorumSize = q ∧ d.2.ValidFor C d.1 r) →
      Fresh r.prepares.keySet r.commits.keySet (ballots l) →
      q ≤ (r.prepares.keySet ∪ (firsts (ballots l)).toFinset).card →
      q ≤ (insert kp.hotkey (r.commits.keySet ∪ (seconds (ballots l)).toFinset)).card →
      r.sequence ∈ (deliverAll C e l).decisions := by
  intro h
  have hrun := engineRun_calls sampleCrypto (sampleKey 1)
    [(sampleEnv 1 1, .handleProposal (sampleProposal .weightUpdate [7]))] (by decide +kernel)
  have hd := h sampleCrypto (sampleKey 1) _ _ hrun sampleOpenRound (Option.some_get _).symm
    (by decide +kernel) 3 votesReversed (by decide +kernel) (by decide +kernel)
    (by decide +kernel) (by decide +kernel)
  revert hd
  decide +kernel

end Platform.Consensus
