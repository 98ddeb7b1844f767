import Platform.Consensus.System

/-!
# Agreement

`n = 3f + 1` validators, at most `f` of them Byzantine.  A proposal, a pre-prepare, a prepare and a
commit are signed over the same bytes, so each of them can end up as a commit: a hash can be decided
in a view as soon as its voters there, of whatever kind, and the Byzantine validators together are a
quorum (`CanCommit`).  An engine votes without looking at what it or others have voted for before,
neither inside a view (a second proposal replaces the round) nor across views (the prepared proofs
of a view change are not used by the new view).
-/

namespace Platform.Consensus
open Lib Platform.Core Finset

theorem SeesAll.quorumSize {V : Finset Hotkey} {stake : Hotkey → UInt64} {k : Hotkey} {env : Env}
    {f : ℕ} (h : SeesAll V stake k env) (hV : V.card = 3 * f + 1) : env.quorumSize = 2 * f + 1 := by
  have hn : env.validatorSet.activeCount env.now = 3 * f + 1 := by
    rw [← ValidatorSet.card_activeHotkeys, h.2.1, hV]
  have h0 : ¬ 3 * f + 1 = 0 := by omega
  rw [Env.quorumSize, ValidatorSet.quorumSize, ValidatorSet.faultTolerance, hn, if_neg h0]
  omega

/-! ## what can be committed -/

def voters (correct : Finset Hotkey) (log : List (Hotkey × Event)) (v : ViewNumber)
    (q : SequenceNumber) (hash : Bytes32) : Finset Hotkey :=
  correct.filter fun k => ∃ a ∈ log, a.1 = k ∧ signedVote a.2.out = some (v, q, hash)

variable (V correct : Finset Hotkey) (f : ℕ) (log : List (Hotkey × Event))

/-- The voters for `hash` at `(v, q)` and the Byzantine validators together are a quorum. -/
def CanCommit (v : ViewNumber) (q : SequenceNumber) (hash : Bytes32) : Prop :=
  2 * f + 1 ≤ (voters correct log v q hash).card + (V \ correct).card

instance (v : ViewNumber) (q : SequenceNumber) (hash : Bytes32) :
    Decidable (CanCommit V correct f log v q hash) :=
  inferInstanceAs (Decidable (_ ≤ _))

/-- At most one hash per sequence can be committed. -/
def OneValue : Prop :=
  ∀ v v' q hash hash', CanCommit V correct f log v q hash →
    CanCommit V correct f log v' q hash' → hash = hash'

/-- the sequence and the hash of the vote that a call is about to sign, a commit apart -/
def castVote (C : Crypto) (env : Env) (e : Engine) : Op → Option (SequenceNumber × Bytes32)
  | .createProposal ct data =>
    if env.amILeader e.currentView = true ∧
        (ct = .configUpdate → env.sudoKey = e.keypair.hotkey) then
      some (e.nextSequence, C.sha256 data)
    else none
  | .createPrePrepare v q hash => if env.amILeader v = true then some (q, hash) else none
  | .handleProposal p =>
    if checkProposal C env e p = .ok () then some (p.sequence, p.proposal.dataHash) else none
  | _ => none

/-- If a hash can already be committed at the sequence, the call votes for no other one. -/
def SafeVote (C : Crypto) (V correct : Finset Hotkey) (f : ℕ) (s : Sys) (a : Hotkey × Event) :
    Prop :=
  ∀ w ∈ castVote C a.2.env a.2.before a.2.op, ∀ b ∈ s.log, ∀ u ∈ signedVote b.2.out,
    u.2.1 = w.1 → CanCommit V correct f s.log u.1 u.2.1 u.2.2 → u.2.2 = w.2

instance (C : Crypto) (V correct : Finset Hotkey) (f : ℕ) (s : Sys) (a : Hotkey × Event) :
    Decidable (SafeVote C V correct f s a) :=
  inferInstanceAs (Decidable (∀ w ∈ castVote C a.2.env a.2.before a.2.op, ∀ b ∈ s.log,
    ∀ u ∈ signedVote b.2.out, u.2.1 = w.1 → CanCommit V correct f s.log u.1 u.2.1 u.2.2 →
      u.2.2 = w.2))

section
variable {C : Crypto} {V correct : Finset Hotkey} {stk : Hotkey → UInt64} {f : ℕ}
  {l : List (Hotkey × Event)} {s s' : Sys} {a : Hotkey × Event} {log : List (Hotkey × Event)}
  {v : ViewNumber} {q : SequenceNumber} {hash : Bytes32}

theorem mem_voters {k : Hotkey} : k ∈ voters correct log v q hash ↔
    k ∈ correct ∧ ∃ ev, (k, ev) ∈ log ∧ signedVote ev.out = some (v, q, hash) := by
  rw [voters, mem_filter]
  refine and_congr_right fun _ => ?_
  constructor
  · rintro ⟨⟨k', ev⟩, ha, rfl, hv⟩
    exact ⟨ev, ha, hv⟩
  · rintro ⟨ev, ha, hv⟩
    exact ⟨(k, ev), ha, rfl, hv⟩

theorem CanCommit.exists_vote (h : CanCommit V correct f log v q hash)
    (hby : (V \ correct).card ≤ f) : ∃ b ∈ log, signedVote b.2.out = some (v, q, hash) := by
  have hp : 0 < (voters correct log v q hash).card := by
    unfold CanCommit at h
    omega
  obtain ⟨k, hk⟩ := card_pos.mp hp
  obtain ⟨-, ev, hev, hv⟩ := mem_voters.mp hk
  exact ⟨(k, ev), hev, hv⟩

theorem EngineStep.newVote {e e' : Engine} {ev : Event} (h : EngineStep C e ev e')
    (hv : signedVote ev.out = some (v, q, hash)) :
    castVote C ev.env e ev.op = some (q, hash) ∨
      ∃ r, e.currentRound = some r ∧ r.view = v ∧ r.sequence = q ∧ r.proposalHash = hash := by
  obtain ⟨env, pre, op, out, after⟩ := ev
  have ht : Trans C env e op out e' := h.trans
  cases ht with
  | proposed ct data hl hs =>
    obtain ⟨-, rfl, rfl⟩ := some_vote_inj hv
    exact Or.inl (if_pos ⟨hl, hs⟩)
  | accepted p hc =>
    obtain ⟨-, hsq, -, hh, -⟩ := (checkProposal_ok_iff C env e p).mp hc
    obtain ⟨-, rfl, rfl⟩ := some_vote_inj hv
    left
    show (if checkProposal C env e p = .ok () then some (p.sequence, p.proposal.dataHash)
      else none) = some (e.nextSequence, C.sha256 p.proposal.data)
    rw [if_pos hc, hsq, hh]
  | prePrepared v' q' hash' hl =>
    obtain ⟨-, rfl, rfl⟩ := some_vote_inj hv
    exact Or.inl (if_pos hl)
  | prepareQuorum r p c hr hc hn hq hp hcm =>
    subst hcm
    obtain ⟨rfl, rfl, rfl⟩ := some_vote_inj hv
    exact Or.inr ⟨r, hr, rfl, rfl, rfl⟩
  | _ => cases hv

theorem canCommit_of_step {sees : Hotkey → Env → Prop} (hrun : SysRun C correct sees l s)
    (hs : SysStep C correct sees s a s') (h : CanCommit V correct f s'.log v q hash) :
    CanCommit V correct f s.log v q hash ∨
      castVote C a.2.env a.2.before a.2.op = some (q, hash) := by
  by_cases hcs : castVote C a.2.env a.2.before a.2.op = some (q, hash)
  · exact Or.inr hcs
  left
  have hsb : voters correct s'.log v q hash ⊆ voters correct s.log v q hash := by
    intro k hk
    obtain ⟨hkc, ev, hev, hv⟩ := mem_voters.mp hk
    rcases hs.mem_log_iff.mp hev with hev | rfl
    · exact mem_voters.mpr ⟨hkc, ev, hev, hv⟩
    · have hb : ev.before = s.engine k := hs.call.1
      rcases hs.call.newVote hv with hnew | ⟨r, hr, rfl, rfl, rfl⟩
      · rw [← hb] at hnew
        exact absurd hnew hcs
      · obtain ⟨x, hx, hsg⟩ := (hrun.engineRun k).signedRound hr
        exact mem_voters.mpr ⟨hkc, x, mem_eventsOf.mp hx, hsg⟩
  have hle := card_le_card hsb
  unfold CanCommit at h ⊢
  omega

/-- **A safe step leaves one value per sequence.** -/
theorem OneValue.step {sees : Hotkey → Env → Prop} (hon : OneValue V correct f s.log)
    (hby : (V \ correct).card ≤ f) (hrun : SysRun C correct sees l s)
    (hs : SysStep C correct sees s a s') (hsf : SafeVote C V correct f s a) :
    OneValue V correct f s'.log := by
  -- a hash that could be committed before, and the hash that the step votes for
  have hsm : ∀ v q hash hash', CanCommit V correct f s.log v q hash →
      castVote C a.2.env a.2.before a.2.op = some (q, hash') → hash = hash' := by
    intro v q hash hash' hcn hcs
    obtain ⟨b, hb, hvt⟩ := hcn.exists_vote hby
    exact hsf (q, hash') hcs b hb (v, q, hash) hvt rfl hcn
  intro v v' q hash hash' h h'
  rcases canCommit_of_step hrun hs h with h | hcs
  · rcases canCommit_of_step hrun hs h' with h' | hcs'
    · exact hon v v' q hash hash' h h'
    · exact hsm v q hash hash' h hcs'
  · rcases canCommit_of_step hrun hs h' with h' | hcs'
    · exact (hsm v' q hash' hash h' hcs).symm
    · rw [hcs] at hcs'
      exact (Prod.mk.inj (Option.some.inj hcs')).2

/-! ## decisions -/

theorem commitFrom_voter (hrun : SysRun C correct (SeesAll V stk) l s)
    {i k : Hotkey} (hi : i ∈ correct) {c : CommitMessage}
    (h : CommitFrom C ⟨i⟩ (eventsOf i s.log) v q hash k c) :
    k ∈ voters correct s.log v q hash ∪ V \ correct := by
  have hvt : c.signingBytes = voteBytes v q hash := by
    rw [CommitMessage.signingBytes, h.view, h.sequence, h.proposalHash]
  rcases h.source with ⟨rfl, ev, hev, ho, -⟩ | ⟨ev, hev, hop, hvr⟩
  · -- the own commit
    have hs : signedVote ev.out = some (v, q, hash) := by
      rw [ho, ← h.view, ← h.sequence, ← h.proposalHash]
      rfl
    exact mem_union_left _ (mem_voters.mpr ⟨hi, ev, mem_eventsOf.mp hev, hs⟩)
  · have hlg := mem_eventsOf.mp hev
    obtain ⟨hrg, -, hok⟩ := (ValidatorSet.verifySignature_ok_iff C _ _ _ _ _).mp hvr
    have hkV : k ∈ V := by
      rw [← (hrun.actors _ hlg).2.1, HashMap.mem_keySet]
      exact hrg
    by_cases hk : k ∈ correct
    · have hpr : (k, voteBytes v q hash, c.signature) ∈ presented ev.op := by
        rw [hop, ← hvt, ← h.validator]
        exact List.mem_singleton.mpr rfl
      obtain ⟨⟨k', x⟩, hx, rfl, hs⟩ := hrun.genuine _ hlg _ hpr hk hok
      exact mem_union_left _ (mem_voters.mpr ⟨hk, x, hx, signedVote_of_signatureOf hs⟩)
    · exact mem_union_right _ (mem_sdiff.mpr ⟨hkV, hk⟩)

/-- **What a correct engine has decided could be committed.** -/
theorem decision_canCommit (hV : V.card = 3 * f + 1)
    (hrun : SysRun C correct (SeesAll V stk) l s) {i : Hotkey} (hi : i ∈ correct)
    {d : ConsensusDecision} (hd : (s.engine i).decisions.lookup q = some d) :
    CanCommit V correct f s.log d.view q d.content.dataHash := by
  have hok := (hrun.engineRun i).logInv.decisions q d hd
  obtain ⟨ev, hev, -, -, -, hq⟩ := hok.quorum
  rw [(hrun.actors _ (mem_eventsOf.mp hev)).2.quorumSize hV] at hq
  have hcr : (d.commitSignatures.map Prod.fst).toFinset.card = d.commitSignatures.length := by
    rw [List.toFinset_card_of_nodup hok.distinct, List.length_map]
  have ha : (d.commitSignatures.map Prod.fst).toFinset ⊆
      voters correct s.log d.view q d.content.dataHash ∪ V \ correct := by
    intro k hk
    obtain ⟨⟨k', σ⟩, hmem, rfl⟩ := List.mem_map.mp (List.mem_toFinset.mp hk)
    obtain ⟨c, -, hfr⟩ := hok.certified k' σ hmem
    rw [hok.sequence] at hfr
    exact commitFrom_voter hrun hi hfr
  calc 2 * f + 1 ≤ d.commitSignatures.length := hq
    _ = (d.commitSignatures.map Prod.fst).toFinset.card := hcr.symm
    _ ≤ (voters correct s.log d.view q d.content.dataHash ∪ V \ correct).card := card_le_card ha
    _ ≤ _ := card_union_le _ _

end

/-- **Agreement.**  Of `3f + 1` validators at most `f` are Byzantine and no signature is forged.  In
every run in which no correct engine votes against a hash that can already be committed at the
sequence, decisions of correct engines for the same sequence have the same hash. -/
theorem agreement (C : Crypto) (V correct : Finset Hotkey) (stake : Hotkey → UInt64) (f : ℕ)
    (hV : V.card = 3 * f + 1) (hbyz : (V \ correct).card ≤ f)
    (l : List (Hotkey × Event)) (s : Sys)
    (hrun : GoodRun C correct (SeesAll V stake) (SafeVote C V correct f) l s) :
    ∀ i ∈ correct, ∀ j ∈ correct, ∀ q d d', (s.engine i).decisions.lookup q = some d →
      (s.engine j).decisions.lookup q = some d' → d.content.dataHash = d'.content.dataHash := by
  have hon : OneValue V correct f s.log := by
    refine Run.logInvariant (P := fun _ s => OneValue V correct f s.log) ?_ ?_ hrun
    · intro v v' q hash hash' h
      obtain ⟨b, hb, -⟩ := h.exists_vote hbyz
      cases hb
    · intro l s a s' hr hP hs
      exact hP.step hbyz (GoodRun.sysRun hr) hs.1 hs.2
  intro i hi j hj q d d' hd hd'
  exact hon _ _ q _ _ (decision_canCommit hV hrun.sysRun hi hd)
    (decision_canCommit hV hrun.sysRun hj hd')

/-- The validators `1` and `2` both decide the one proposal. -/
theorem agreement_sample :
    let run := sysCalls sampleCrypto (sampleDecides 1 2 [7] ++
      [(.ofByte 2, sampleEnv 2 2, .handleCommit (sampleCommit 0 [7])),
        (.ofByte 2, sampleEnv 2 2, .handleCommit (sampleCommit 1 [7]))])
    1 ∈ (run.2.engine (.ofByte 1)).decisions ∧ 1 ∈ (run.2.engine (.ofByte 2)).decisions ∧
      ∀ i ∈ sampleCorrect, ∀ j ∈ sampleCorrect, ∀ q d d',
        (run.2.engine i).decisions.lookup q = some d →
        (run.2.engine j).decisions.lookup q = some d' → d.content.dataHash = d'.content.dataHash :=
  ⟨by decide +kernel, by decide +kernel,
    agreement sampleCrypto sampleValidators sampleCorrect (fun _ => 1000) 1 (by decide +kernel)
      (by decide +kernel) _ _ (goodRun_calls _ (by decide +kernel))⟩

/-- **An equivocating leader splits the network.**  Validators `1` and `2` vote for its first
proposal and `1` decides; then `2` and `3` vote for its second proposal, in the same view and for
the same sequence, and `3` decides. -/
theorem agreement_equivocation :
    ¬ ∀ (C : Crypto) (V correct : Finset Hotkey) (stake : Hotkey → UInt64) (f : ℕ),
      V.card = 3 * f + 1 → correct ⊆ V → (V \ correct).card ≤ f →
      ∀ (l : List (Hotkey × Event)) (s : Sys), SysRun C correct (SeesAll V stake) l s →
      ∀ i ∈ correct, ∀ j ∈ correct, ∀ q d d', (s.engine i).decisions.lookup q = some d →
        (s.engine j).decisions.lookup q = some d' →
        d.content.dataHash = d'.content.dataHash := by
  intro h
  have hrun : GoodRun sampleCrypto sampleCorrect (SeesAll sampleValidators fun _ => 1000)
      (fun _ _ => True) _ _ :=
    goodRun_calls (sampleDecides 1 2 [7] ++ sampleDecides 3 2 [8]) (by decide +kernel)
  have hs := h sampleCrypto sampleValidators sampleCorrect (fun _ => 1000) 1 (by decide +kernel)
    (by decide +kernel) (by decide +kernel) _ _ hrun.sysRun (.ofByte 1) (by decide +kernel)
    (.ofByte 3) (by decide +kernel) 1 _ _ (Option.some_get (by decide +kernel)).symm
    (Option.some_get (by decide +kernel)).symm
  revert hs
  decide +kernel

/-- **A split needs double votes.**  In every run, two decisions of correct engines for a sequence,
whatever their hashes, share correct voters: with the Byzantine validators at least `f + 1`. -/
theorem decisions_share_voters (C : Crypto) (V correct : Finset Hotkey) (stake : Hotkey → UInt64)
    (f : ℕ) (hV : V.card = 3 * f + 1) (hcorrect : correct ⊆ V) (l : List (Hotkey × Event)) (s : Sys)
    (hrun : SysRun C correct (SeesAll V stake) l s) :
    ∀ i ∈ correct, ∀ j ∈ correct, ∀ q d d', (s.engine i).decisions.lookup q = some d →
      (s.engine j).decisions.lookup q = some d' →
      f + 1 ≤ (voters correct s.log d.view q d.content.dataHash ∩
        voters correct s.log d'.view q d'.content.dataHash).card + (V \ correct).card := by
  intro i hi j hj q d d' hd hd'
  have h : _ ≤ _ := decision_canCommit hV hrun hi hd
  have h' : _ ≤ _ := decision_canCommit hV hrun hj hd'
  have hu := card_le_card (union_subset (filter_subset _ correct) (filter_subset _ correct) :
    voters correct s.log d.view q d.content.dataHash ∪
      voters correct s.log d'.view q d'.content.dataHash ⊆ correct)
  have hsum := card_union_add_card_inter (voters correct s.log d.view q d.content.dataHash)
    (voters correct s.log d'.view q d'.content.dataHash)
  have hall := card_sdiff_add_card_eq_card hcorrect
  omega

/-- an equivocating leader splits the network -/
def splitRun := sysCalls sampleCrypto (sampleDecides 1 2 [7] ++ sampleDecides 3 2 [8])

theorem split_shares_voters :
    1 ∈ (splitRun.2.engine (.ofByte 1)).decisions ∧ 1 ∈ (splitRun.2.engine (.ofByte 3)).decisions ∧
      ∀ q d d', (splitRun.2.engine (.ofByte 1)).decisions.lookup q = some d →
        (splitRun.2.engine (.ofByte 3)).decisions.lookup q = some d' →
        1 + 1 ≤ (voters sampleCorrect splitRun.2.log d.view q d.content.dataHash ∩
          voters sampleCorrect splitRun.2.log d'.view q d'.content.dataHash).card +
            (sampleValidators \ sampleCorrect).card :=
  ⟨by decide +kernel, by decide +kernel,
    decisions_share_voters sampleCrypto sampleValidators sampleCorrect (fun _ => 1000) 1
      (by decide +kernel) (by decide +kernel) splitRun.1 splitRun.2
      (goodRun_calls _ (by decide +kernel) : GoodRun _ _ _ (fun _ _ => True) _ _).sysRun
      (.ofByte 1) (by decide +kernel) (.ofByte 3) (by decide +kernel)⟩

end Platform.Consensus
