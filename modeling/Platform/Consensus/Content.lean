import Platform.Consensus.System

/-!
# What is decided, and what the leader proposed

A proposal is signed over its view, its sequence and the hash of its data.  The change type is
under neither the hash nor the signature, so whoever relays a proposal can change it; and the sudo
check of `handle_proposal` reads the changed field.
-/

namespace Platform.Consensus
open Lib Platform.Core Option

variable (C : Crypto) (order : List Hotkey) (log : List (Hotkey × Event))

def SameLeaders (sudoKey : Hotkey) (k : Hotkey) (env : Env) : Prop :=
  (env.validatorSet.validatorsByStake env.now).map ValidatorRecord.hotkey = order ∧
    env.validatorSet.localKeypair.hotkey = k ∧ env.sudoKey = sudoKey

instance (sudoKey k : Hotkey) (env : Env) :
    Decidable (SameLeaders order sudoKey k env) := inferInstanceAs (Decidable (_ ∧ _ ∧ _))

def leaderOf (v : ViewNumber) : Option Hotkey :=
  order[v.toNat % order.length]?

section
variable {order : List Hotkey} {sudoKey k : Hotkey} {env : Env}

theorem SameLeaders.leaderForView (h : SameLeaders order sudoKey k env) (v : ViewNumber) :
    env.leaderForView v = leaderOf order v := by
  rw [leaderOf, ← h.1, List.length_map, List.getElem?_map]
  rfl

theorem SameLeaders.amILeader (h : SameLeaders order sudoKey k env) {v : ViewNumber}
    (hl : env.amILeader v = true) : leaderOf order v = some k := by
  rw [← h.leaderForView, ← h.2.1]
  exact of_decide_eq_true hl

end

/-! ## created proposals -/

def createdTypes (w : Hotkey) (v : ViewNumber) (q : SequenceNumber) (hash : Bytes32) :
    List StateChangeType :=
  log.filterMap fun a =>
    match a.2.out with
    | .ok (.proposal p) =>
      if a.1 = w ∧ p.view = v ∧ p.sequence = q ∧ p.proposal.dataHash = hash then
        some p.proposal.changeType
      else none
    | _ => none

/-- the data that the calls were given -/
def dataOf : List Bytes :=
  log.filterMap fun a =>
    match a.2.op with
    | .createProposal _ data => some data
    | .handleProposal p => some p.proposal.data
    | _ => none

def NoCollision : Prop :=
  ∀ d ∈ dataOf log, ∀ d' ∈ dataOf log, C.sha256 d = C.sha256 d' → d = d'

instance : Decidable (NoCollision C log) :=
  inferInstanceAs (Decidable (∀ d ∈ dataOf log, ∀ d' ∈ dataOf log,
    C.sha256 d = C.sha256 d' → d = d'))

def givenProposal : Op → Option ConsensusProposal
  | .handleProposal p => some p
  | _ => none

def givenPrePrepare : Op → Option (ViewNumber × SequenceNumber × Bytes32)
  | .createPrePrepare v q hash => some (v, q, hash)
  | _ => none

def ContentKept (s : Sys) (a : Hotkey × Event) : Prop :=
  (∀ p ∈ givenProposal a.2.op, checkProposal C a.2.env a.2.before p = .ok () →
    createdTypes s.log p.proposer p.view p.sequence p.proposal.dataHash ≠ [] →
    p.proposal.changeType ∈ createdTypes s.log p.proposer p.view p.sequence p.proposal.dataHash) ∧
  ∀ w ∈ givenPrePrepare a.2.op, a.2.env.amILeader w.1 = true →
    createdTypes s.log a.1 w.1 w.2.1 w.2.2 ≠ []

instance (s : Sys) (a : Hotkey × Event) : Decidable (ContentKept C s a) :=
  inferInstanceAs (Decidable (_ ∧ ∀ w ∈ givenPrePrepare a.2.op, _))

section
variable {log log' : List (Hotkey × Event)} {w : Hotkey} {v : ViewNumber} {q : SequenceNumber}
  {hash : Bytes32} {ct : StateChangeType}

theorem mem_createdTypes : ct ∈ createdTypes log w v q hash ↔
    ∃ ev p, (w, ev) ∈ log ∧ ev.out = .ok (.proposal p) ∧ p.view = v ∧ p.sequence = q ∧
      p.proposal.dataHash = hash ∧ p.proposal.changeType = ct := by
  rw [createdTypes, List.mem_filterMap]
  constructor
  · rintro ⟨⟨k, ev⟩, ha, h⟩
    split at h
    · rename_i p hout
      split at h
      · rename_i hc
        obtain ⟨rfl, hv, hq, hh⟩ := hc
        exact ⟨ev, p, ha, hout, hv, hq, hh, some.inj h⟩
      · cases h
    · cases h
  · rintro ⟨ev, p, ha, hout, hv, hq, hh, hct⟩
    refine ⟨(w, ev), ha, ?_⟩
    rw [hout]
    dsimp only
    rw [if_pos ⟨rfl, hv, hq, hh⟩, hct]

theorem createdTypes_subset (h : log ⊆ log') :
    createdTypes log w v q hash ⊆ createdTypes log' w v q hash := by
  intro ct hct
  obtain ⟨ev, p, ha, hp⟩ := mem_createdTypes.mp hct
  exact mem_createdTypes.mpr ⟨ev, p, h ha, hp⟩

theorem createdTypes_ne_nil_mono (h : log ⊆ log') (hne : createdTypes log w v q hash ≠ []) :
    createdTypes log' w v q hash ≠ [] := by
  obtain ⟨ct, hct⟩ := List.exists_mem_of_ne_nil _ hne
  exact List.ne_nil_of_mem (createdTypes_subset h hct)

theorem dataOf_subset (h : log ⊆ log') : dataOf log ⊆ dataOf log' := by
  intro d hd
  obtain ⟨a, ha, hop⟩ := List.mem_filterMap.mp hd
  exact List.mem_filterMap.mpr ⟨a, h ha, hop⟩

end

/-! ## a leader signs what it has proposed -/

def LeaderSigned : Prop :=
  ∀ a ∈ log, ∀ v q hash, signedVote a.2.out = some (v, q, hash) → leaderOf order v = some a.1 →
    createdTypes log a.1 v q hash ≠ []

section
variable {C : Crypto} {correct : Finset Hotkey} {order : List Hotkey} {sudoKey : Hotkey}
  {l : List (Hotkey × Event)} {s s' : Sys} {a : Hotkey × Event}

theorem accepted_signed {sees : Hotkey → Env → Prop} (hs : SysStep C good sees s a s')
    {p : ConsensusProposal} (hop : a.2.op = .handleProposal p)
    (hc : checkProposal C a.2.env (s.engine a.1) p = .ok ()) (hp : p.proposer ∈ good) :
    ∃ b ∈ s.log, b.1 = p.proposer ∧
      signedVote b.2.out = some (p.view, p.sequence, p.proposal.dataHash) := by
  obtain ⟨-, -, -, -, hvr, -⟩ := (checkProposal_ok_iff C _ _ p).mp hc
  have hok := ((SignedMessage.verify_ok_iff C _ _).mp hvr).2
  have hpr : (p.proposer, p.signingBytes, p.signature) ∈ presented a.2.op := by
    rw [hop]
    exact List.mem_singleton.mpr rfl
  obtain ⟨b, hb, hbk, hsg⟩ := hs.unforgeable _ hpr hp hok
  exact ⟨b, hb, hbk, signedVote_of_signatureOf hsg⟩

theorem accepted_leader (hs : SysStep C correct (SameLeaders order sudoKey) s a s')
    {p : ConsensusProposal} (hc : checkProposal C a.2.env (s.engine a.1) p = .ok ()) :
    leaderOf order p.view = some p.proposer := by
  obtain ⟨hv, -, hl, -⟩ := (checkProposal_ok_iff C _ _ p).mp hc
  rw [hs.sees.leaderForView] at hl
  rw [hv]
  exact hl

/-- **A correct leader keeps signing only what it has proposed.** -/
theorem LeaderSigned.step (h : LeaderSigned order s.log)
    (hrun : SysRun C correct (SameLeaders order sudoKey) l s)
    (hs : SysStep C correct (SameLeaders order sudoKey) s a s') (hk : ContentKept C s a) :
    LeaderSigned order s'.log := by
  intro b hb v q hash hv hl
  rcases hs.mem_log_iff.mp hb with hb | rfl
  · exact createdTypes_ne_nil_mono hs.log_subset (h b hb v q hash hv hl)
  have hm := hs.mem_log
  have hld : ∀ p, b.2.op = .handleProposal p →
      checkProposal C b.2.env (s.engine b.1) p = .ok () → leaderOf order p.view = some b.1 →
      createdTypes s'.log b.1 p.view p.sequence p.proposal.dataHash ≠ [] := by
    intro p hop hc hlp
    have hpr : p.proposer = b.1 := by
      rw [accepted_leader hs hc] at hlp
      exact some.inj hlp
    obtain ⟨x, hx, hxk, hsg⟩ := accepted_signed hs hop hc (hpr ▸ hs.actor)
    have hne := h x hx _ _ _ hsg (by rw [hlp, hxk, hpr])
    rw [hxk, hpr] at hne
    exact createdTypes_ne_nil_mono hs.log_subset hne
  obtain ⟨k, env, before, op, out, after⟩ := b
  have ht : Trans C env (s.engine k) op out after := hs.call.trans
  generalize he : s.engine k = e at ht
  cases ht with
  | proposed ct data hla hsd =>
    obtain ⟨rfl, rfl, rfl⟩ := some_vote_inj hv
    exact List.ne_nil_of_mem (mem_createdTypes.mpr ⟨_, _, hm, rfl, rfl, rfl, rfl, rfl⟩)
  | accepted p hc =>
    obtain ⟨hvw, hsq, -, hh, -⟩ := (checkProposal_ok_iff C env e p).mp hc
    obtain ⟨rfl, rfl, rfl⟩ := some_vote_inj hv
    show createdTypes s'.log k e.currentView e.nextSequence (C.sha256 p.proposal.data) ≠ []
    rw [hh, ← hvw, ← hsq]
    have hlv : leaderOf order p.view = some k := by
      rw [hvw]
      exact hl
    exact hld p rfl (by rw [he]; exact hc) hlv
  | prePrepared v' q' hash' hla =>
    obtain ⟨rfl, rfl, rfl⟩ := some_vote_inj hv
    exact createdTypes_ne_nil_mono hs.log_subset (hk.2 (v', q', hash') rfl hla)
  | prepareQuorum r p c hr hc hn hq hp hcm =>
    -- a commit repeats the vote that opened the round
    subst hcm
    obtain ⟨rfl, rfl, rfl⟩ := some_vote_inj hv
    rw [← he] at hr
    obtain ⟨x, hx, hsg⟩ := (hrun.engineRun k).signedRound hr
    exact createdTypes_ne_nil_mono hs.log_subset (h (k, x) (mem_eventsOf.mp hx) _ _ _ hsg hl)
  | _ => cases hv

theorem GoodRun.leaderSigned
    (h : GoodRun C correct (SameLeaders order sudoKey) (ContentKept C) l s) :
    LeaderSigned order s.log := by
  refine Run.logInvariant (P := fun _ s => LeaderSigned order s.log) ?_ ?_ h
  · intro b hb
    cases hb
  · intro l s a s' hr hP hs
    exact hP.step (GoodRun.sysRun hr) hs.1 hs.2

end

/-! ## contents -/

structure ContentOk (correct : Finset Hotkey) (order : List Hotkey) (sudoKey : Hotkey)
    (log : List (Hotkey × Event)) (v : ViewNumber) (q : SequenceNumber) (c : ProposalContent) :
    Prop where
  type : ∀ w ∈ correct, leaderOf order v = some w → c.changeType ∈ createdTypes log w v q c.dataHash
  config : c.changeType = .configUpdate → leaderOf order v = some sudoKey
  hash : C.sha256 c.data = c.dataHash
  data : c.data ∈ dataOf log

/-- what the engine `e` has on the table and what it has decided -/
structure EngineContent (correct : Finset Hotkey) (order : List Hotkey) (sudoKey : Hotkey)
    (log : List (Hotkey × Event)) (e : Engine) : Prop where
  round : ∀ r p, e.currentRound = some r → r.proposal = some p →
    ContentOk C correct order sudoKey log r.view r.sequence p.proposal
  decisions : ∀ q d, e.decisions.lookup q = some d →
    ContentOk C correct order sudoKey log d.view d.sequence d.content

section
variable {C : Crypto} {correct : Finset Hotkey} {order : List Hotkey} {sudoKey : Hotkey}
  {l log log' : List (Hotkey × Event)} {s s' : Sys} {a : Hotkey × Event} {e e' : Engine}

theorem ContentOk.mono {v : ViewNumber} {q : SequenceNumber} {c : ProposalContent}
    (h : ContentOk C correct order sudoKey log v q c) (hsb : log ⊆ log') :
    ContentOk C correct order sudoKey log' v q c :=
  ⟨fun w hw hl => createdTypes_subset hsb (h.type w hw hl), h.config, h.hash,
    dataOf_subset hsb h.data⟩

variable (h : EngineContent C correct order sudoKey log e)

section
include h

theorem EngineContent.mono (hsb : log ⊆ log') : EngineContent C correct order sudoKey log' e :=
  ⟨fun r p hr hp => (h.round r p hr hp).mono hsb, fun q d hd => (h.decisions q d hd).mono hsb⟩

theorem EngineContent.sameRound (hd : e'.decisions = e.decisions)
    (hr : ∀ r', e'.currentRound = some r' → ∃ r, e.currentRound = some r ∧ r'.view = r.view ∧
      r'.sequence = r.sequence ∧ r'.proposal = r.proposal) :
    EngineContent C correct order sudoKey log e' where
  round := by
    intro r' p hr' hp
    obtain ⟨r, he, hv, hq, hpr⟩ := hr r' hr'
    rw [hv, hq]
    rw [hpr] at hp
    exact h.round r p he hp
  decisions := by
    rw [hd]
    exact h.decisions

theorem EngineContent.openRound {r : ConsensusRound} {p : ConsensusProposal}
    (hp : r.proposal = some p)
    (hok : ContentOk C correct order sudoKey log r.view r.sequence p.proposal) :
    EngineContent C correct order sudoKey log { e with currentRound := some r } where
  round := by
    intro r' p' hr' hp'
    obtain rfl : r = r' := some.inj hr'
    rw [hp] at hp'
    rw [← some.inj hp']
    exact hok
  decisions := h.decisions

end

theorem contentOk_of_accepted (hld : LeaderSigned order s.log)
    (hs : SysStep C correct (SameLeaders order sudoKey) s a s') (hk : ContentKept C s a)
    {p : ConsensusProposal} (hop : a.2.op = .handleProposal p)
    (hc : checkProposal C a.2.env (s.engine a.1) p = .ok ()) :
    ContentOk C correct order sudoKey s'.log p.view p.sequence p.proposal := by
  have hl := accepted_leader hs hc
  obtain ⟨-, -, -, hh, -, hcn⟩ := (checkProposal_ok_iff C _ _ p).mp hc
  refine ⟨fun w hw hlw => ?_, fun hct => ?_, hh, ?_⟩
  · obtain rfl : p.proposer = w := by
      rw [hl] at hlw
      exact some.inj hlw
    obtain ⟨b, hb, hbk, hsg⟩ := accepted_signed hs hop hc hw
    have hne := hld b hb _ _ _ hsg (by rw [hl, hbk])
    rw [hbk] at hne
    have hbf : a.2.before = s.engine a.1 := hs.call.1
    have hg : p ∈ givenProposal a.2.op := by
      rw [hop]
      rfl
    exact createdTypes_subset hs.log_subset (hk.1 p hg (by rw [hbf]; exact hc) hne)
  · rw [hl, ← hcn hct, hs.sees.2.2]
  · exact List.mem_filterMap.mpr ⟨a, hs.mem_log, by rw [hop]⟩

/-- **One call keeps the contents.** -/
theorem EngineContent.step (h : EngineContent C correct order sudoKey s.log (s.engine a.1))
    (hld : LeaderSigned order s.log) (hs : SysStep C correct (SameLeaders order sudoKey) s a s')
    (hst : StateInv C ⟨a.1⟩ (s.engine a.1)) (hk : ContentKept C s a) :
    EngineContent C correct order sudoKey s'.log a.2.after := by
  have h' := h.mono hs.log_subset
  have hm := hs.mem_log
  have ha : ∀ p, a.2.op = .handleProposal p →
      checkProposal C a.2.env (s.engine a.1) p = .ok () →
      ContentOk C correct order sudoKey s'.log p.view p.sequence p.proposal :=
    fun p hop hc => contentOk_of_accepted hld hs hk hop hc
  obtain ⟨k, env, before, op, out, after⟩ := a
  have hss : SameLeaders order sudoKey k env := hs.sees
  have ht : Trans C env (s.engine k) op out after := hs.call.trans
  generalize s.engine k = e at ht h h' hst ha
  cases ht with
  | proposed ct data hl hsd =>
    have hlk : leaderOf order e.currentView = some k := hss.amILeader hl
    refine h'.openRound rfl ⟨fun w hw hlw => ?_, fun hct => ?_, rfl, ?_⟩
    · obtain rfl : k = w := some.inj (hlk.symm.trans hlw)
      exact mem_createdTypes.mpr ⟨_, _, hm, rfl, rfl, rfl, rfl, rfl⟩
    · rw [← hss.2.2, hsd hct, hst.keypair]
      exact hlk
    · exact List.mem_filterMap.mpr ⟨_, hm, rfl⟩
  | accepted p hc =>
    obtain ⟨hv, hq, -⟩ := (checkProposal_ok_iff C env e p).mp hc
    have hok := ha p rfl hc
    rw [hv, hq] at hok
    exact h'.openRound rfl hok
  | prePrepared v q hash =>
    refine h'.sameRound rfl fun r' hr' => ?_
    obtain ⟨r, hr, rfl⟩ := map_eq_some_iff.mp hr'
    exact ⟨r, hr, rfl, rfl, rfl⟩
  | prepareCounted r p hr | prepareQuorum r p c hr | commitCounted r c hr =>
    refine h'.sameRound rfl fun r' hr' => ⟨r, hr, ?_⟩
    rw [← some.inj hr']
    exact ⟨rfl, rfl, rfl⟩
  | decided r c p hr hc hn hq hph hp =>
    refine ⟨fun r' p' hr' => (nomatch hr'), fun q d hd => ?_⟩
    rcases (HashMap.lookup_insert_iff _ _ _ _ _).mp hd with ⟨-, rfl⟩ | ⟨-, hd⟩
    · exact h'.round r p hr hp
    · exact h'.decisions q d hd
  | noProposal r c err hr hp => exact absurd hp (hst.round r hr).proposal_ne_none
  | overflow => exact absurd rfl hs.call.2.2.2
  | newViewFormed | newViewEntered => exact h'.sameRound rfl fun r' hr' => (nomatch hr')
  | _ => exact h'.sameRound rfl fun r' hr' => ⟨r', hr', rfl, rfl, rfl⟩

theorem GoodRun.engineContent
    (h : GoodRun C correct (SameLeaders order sudoKey) (ContentKept C) l s) (k : Hotkey) :
    EngineContent C correct order sudoKey s.log (s.engine k) := by
  refine Run.logInvariant (P := fun _ s => EngineContent C correct order sudoKey s.log (s.engine k))
    ⟨?_, ?_⟩ ?_ h
  · intro r p hr
    cases hr
  · intro q d hd
    cases hd
  · intro l s a s' hr hP ⟨hs, hkp⟩
    by_cases hk : k = a.1
    · subst hk
      rw [hs.engine_self]
      have hrun : SysRun C correct (SameLeaders order sudoKey) l s := GoodRun.sysRun hr
      exact hP.step (GoodRun.leaderSigned hr) hs (hrun.engineRun a.1).stateInv hkp
    · rw [hs.engine_other hk]
      exact hP.mono hs.log_subset

theorem EngineStep.proposalCreated {ev : Event} {p : ConsensusProposal} (h : EngineStep C e ev e')
    (hot : ev.out = .ok (.proposal p)) :
    ev.op = .createProposal p.proposal.changeType p.proposal.data ∧
      p.proposal.dataHash = C.sha256 p.proposal.data := by
  obtain ⟨env, pre, op, out, after⟩ := ev
  have ht : Trans C env e op out e' := h.trans
  have ho : out = .ok (.proposal p) := hot
  subst ho
  cases ht with
  | proposed ct data hl hs => exact ⟨rfl, rfl⟩

end

/-- **Decided content is what the leader proposed.**  Signatures are not forged and the data of the
run do not collide.  In every run in which no change type is altered on the way and pre-prepares are
made for proposals only: what a correct engine decides in a view with a correct leader, the leader
created with exactly that change type and data; and a config update is decided only in a view that
the sudo key leads. -/
theorem decided_content (C : Crypto) (correct : Finset Hotkey) (order : List Hotkey)
    (sudoKey : Hotkey) (l : List (Hotkey × Event)) (s : Sys)
    (h : GoodRun C correct (SameLeaders order sudoKey) (ContentKept C) l s)
    (hcol : NoCollision C s.log) :
    ∀ k ∈ correct, ∀ q d, (s.engine k).decisions.lookup q = some d →
      (∀ w ∈ correct, leaderOf order d.view = some w → ∃ ev p, (w, ev) ∈ s.log ∧
        ev.op = .createProposal d.content.changeType d.content.data ∧
        ev.out = .ok (.proposal p) ∧ p.view = d.view ∧ p.sequence = q) ∧
      (d.content.changeType = .configUpdate → leaderOf order d.view = some sudoKey) := by
  intro k _ q d hd
  have hrun := h.sysRun
  have hok := (h.engineContent k).decisions q d hd
  have hsq := ((hrun.engineRun k).logInv.decisions q d hd).sequence
  refine ⟨fun w hw hl => ?_, hok.config⟩
  obtain ⟨ev, p, hev, ho, hv, hq, hh, hct⟩ := mem_createdTypes.mp (hok.type w hw hl)
  obtain ⟨hop, hhs⟩ := (hrun.calls _ hev).1.proposalCreated ho
  have hin : p.proposal.data ∈ dataOf s.log :=
    List.mem_filterMap.mpr ⟨(w, ev), hev, by dsimp only; rw [hop]⟩
  have hdt : p.proposal.data = d.content.data := by
    apply hcol _ hin _ hok.data
    rw [← hhs, hh, hok.hash]
  rw [hct, hdt] at hop
  exact ⟨ev, p, hev, hop, ho, hv, hq.trans hsq⟩

/-- the leaders of the network of four, view after view -/
def sampleOrder : List Hotkey := [.ofByte 0, .ofByte 1, .ofByte 2, .ofByte 3]

/-- the leader of view `0` is correct, validator `3` is Byzantine -/
def sampleHonest : Finset Hotkey := {.ofByte 0, .ofByte 1, .ofByte 2}

/-- The leader of view `0` proposes a weight update.  Validator `2` gets it as it is, validator `1`
gets it with the change type `ct`; they vote, and `1` decides. -/
def sampleRelayed (ct : StateChangeType) : List (Hotkey × Env × Op) :=
  [(.ofByte 0, sampleEnv 0 0, .createProposal .weightUpdate [7]),
    (.ofByte 1, sampleEnv 1 1, .handleProposal (sampleProposal ct [7])),
    (.ofByte 2, sampleEnv 2 1, .handleProposal (sampleProposal .weightUpdate [7])),
    (.ofByte 1, sampleEnv 1 2, .handlePrepare (samplePrepare 2 [7])),
    (.ofByte 1, sampleEnv 1 2, .handlePrepare (samplePrepare 3 [7])),
    (.ofByte 2, sampleEnv 2 2, .handlePrepare (samplePrepare 1 [7])),
    (.ofByte 2, sampleEnv 2 2, .handlePrepare (samplePrepare 3 [7])),
    (.ofByte 1, sampleEnv 1 2, .handleCommit (sampleCommit 2 [7])),
    (.ofByte 1, sampleEnv 1 2, .handleCommit (sampleCommit 3 [7]))]

/-- The proposal is relayed as it is, and decided as it is. -/
theorem decided_content_sample :
    let run := sysCalls sampleCrypto (sampleRelayed .weightUpdate)
    1 ∈ (run.2.engine (.ofByte 1)).decisions ∧
    ∀ k ∈ sampleHonest, ∀ q d, (run.2.engine k).decisions.lookup q = some d →
      (∀ w ∈ sampleHonest, leaderOf sampleOrder d.view = some w → ∃ ev p, (w, ev) ∈ run.2.log ∧
        ev.op = .createProposal d.content.changeType d.content.data ∧
        ev.out = .ok (.proposal p) ∧ p.view = d.view ∧ p.sequence = q) ∧
      (d.content.changeType = .configUpdate → leaderOf sampleOrder d.view = some (.ofByte 0)) :=
  ⟨by decide +kernel,
    decided_content sampleCrypto sampleHonest sampleOrder (.ofByte 0) _ _
      (goodRun_calls _ (by decide +kernel)) (by decide +kernel)⟩

/-- **A weight update becomes a config update on the way.**  The leader holds the sudo key, so the
altered proposal passes the sudo check too, and validator `1` decides a config update that nobody
proposed. -/
theorem decided_content_retyped :
    ¬ ∀ (C : Crypto) (correct : Finset Hotkey) (order : List Hotkey) (sudoKey : Hotkey)
      (l : List (Hotkey × Event)) (s : Sys), SysRun C correct (SameLeaders order sudoKey) l s →
      NoCollision C s.log →
      ∀ k ∈ correct, ∀ q d, (s.engine k).decisions.lookup q = some d →
        (∀ w ∈ correct, leaderOf order d.view = some w → ∃ ev p, (w, ev) ∈ s.log ∧
          ev.op = .createProposal d.content.changeType d.content.data ∧
          ev.out = .ok (.proposal p) ∧ p.view = d.view ∧ p.sequence = q) ∧
        (d.content.changeType = .configUpdate → leaderOf order d.view = some sudoKey) := by
  intro h
  have hrun : GoodRun sampleCrypto sampleHonest (SameLeaders sampleOrder (.ofByte 0))
      (fun _ _ => True) _ _ := goodRun_calls (sampleRelayed .configUpdate) (by decide +kernel)
  obtain ⟨ev, p, hev, hop, -⟩ := (h sampleCrypto sampleHonest sampleOrder (.ofByte 0) _ _
    hrun.sysRun (by decide +kernel) (.ofByte 1) (by decide +kernel) 1 _
    (some_get (by decide +kernel)).symm).1 (.ofByte 0) (by decide +kernel)
    (by decide +kernel)
  have hno : ∀ b ∈ (sysCalls sampleCrypto (sampleRelayed .configUpdate)).2.log,
      b.2.op ≠ .createProposal .configUpdate [7] := by decide +kernel
  apply hno _ hev
  rw [hop]
  decide +kernel

end Platform.Consensus
