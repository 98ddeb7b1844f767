import Platform.Consensus.Invariant
import Platform.Consensus.Views

/-!
# One vote per view and sequence

An engine votes with the prepares that `handle_proposal` returns and with the commits that
`handle_prepare` returns.  Neither `handle_proposal` nor `create_proposal` looks at the round that
is already active, so a second proposal replaces a round in which the engine has voted, and a view
that is entered again lets it vote there again.
-/

namespace Platform.Consensus
open Lib Platform.Core

def voteOf : Outcome Output → Option (ViewNumber × SequenceNumber × Bytes32)
  | .ok (.prepare p) => some (p.view, p.sequence, p.proposalHash)
  | .ok (.commit (some c)) => some (c.view, c.sequence, c.proposalHash)
  | _ => none

def Voted (evs : List Event) (v : ViewNumber) (s : SequenceNumber) (hash : Bytes32) : Prop :=
  ∃ ev ∈ evs, voteOf ev.out = some (v, s, hash)

def NoDoubleVote (evs : List Event) : Prop :=
  (∀ ev₁ ∈ evs, ∀ ev₂ ∈ evs, ∀ p₁ p₂, ev₁.out = .ok (.prepare p₁) → ev₂.out = .ok (.prepare p₂) →
    p₁.view = p₂.view → p₁.sequence = p₂.sequence → p₁.proposalHash = p₂.proposalHash) ∧
  (∀ ev₁ ∈ evs, ∀ ev₂ ∈ evs, ∀ c₁ c₂, ev₁.out = .ok (.commit (some c₁)) →
    ev₂.out = .ok (.commit (some c₂)) →
    c₁.view = c₂.view → c₁.sequence = c₂.sequence → c₁.proposalHash = c₂.proposalHash)

def votedIn (r : ConsensusRound) : Bool := r.localPrepared || r.localCommitted

def replaces (C : Crypto) (env : Env) (e : Engine) (r : ConsensusRound) : Op → Bool
  | .createProposal ct _ =>
    env.amILeader e.currentView && decide (ct = .configUpdate → env.sudoKey = e.keypair.hotkey)
  | .handleProposal p =>
    decide (checkProposal C env e p = .ok ()) && decide (p.proposal.dataHash ≠ r.proposalHash)
  | _ => false

def KeepsRound (C : Crypto) (ev : Event) : Prop :=
  ∀ r ∈ ev.before.currentRound, votedIn r = true → replaces C ev.env ev.before r ev.op = false

instance (C : Crypto) (ev : Event) : Decidable (KeepsRound C ev) :=
  inferInstanceAs (Decidable (∀ r ∈ ev.before.currentRound, votedIn r = true →
    replaces C ev.env ev.before r ev.op = false))

section
variable {evs : List Event} {ev : Event} {v : ViewNumber} {s : SequenceNumber} {hash : Bytes32}

theorem voted_append : Voted (evs ++ [ev]) v s hash ↔
    Voted evs v s hash ∨ voteOf ev.out = some (v, s, hash) := by
  simp only [Voted, List.mem_append, List.mem_singleton]
  constructor
  · rintro ⟨x, hx | rfl, h⟩
    · exact Or.inl ⟨x, hx, h⟩
    · exact Or.inr h
  · rintro (⟨x, hx, h⟩ | h)
    · exact ⟨x, Or.inl hx, h⟩
    · exact ⟨ev, Or.inr rfl, h⟩

theorem Voted.of_silent (h : Voted (evs ++ [ev]) v s hash) (ho : voteOf ev.out = none) :
    Voted evs v s hash := by
  rcases voted_append.mp h with h | h
  · exact h
  · rw [ho] at h
    cases h

end

structure VoteInv (evs : List Event) (e : Engine) : Prop where
  bound : ∀ v s hash, Voted evs v s hash →
    v.toNat ≤ e.currentView.toNat ∧ s.toNat ≤ e.nextSequence.toNat
  current : ∀ hash, Voted evs e.currentView e.nextSequence hash →
    ∃ r, e.currentRound = some r ∧ r.proposalHash = hash ∧ votedIn r = true
  unique : ∀ v s hash hash', Voted evs v s hash → Voted evs v s hash' → hash = hash'

section
variable {C : Crypto} {kp : Keypair} {evs : List Event} {e e' : Engine} {ev : Event}

theorem VoteInv.silent (h : VoteInv evs e) (ho : voteOf ev.out = none)
    (hv : e'.currentView = e.currentView) (hs : e'.nextSequence = e.nextSequence)
    (hr : ∀ r, e.currentRound = some r → votedIn r = true →
      ∃ r', e'.currentRound = some r' ∧ r'.proposalHash = r.proposalHash ∧ votedIn r' = true) :
    VoteInv (evs ++ [ev]) e' := by
  refine ⟨?_, ?_, ?_⟩
  · intro v s hash hvt
    rw [hv, hs]
    exact h.bound v s hash (hvt.of_silent ho)
  · intro hash hvt
    rw [hv, hs] at hvt
    obtain ⟨r, her, hh, hin⟩ := h.current hash (hvt.of_silent ho)
    obtain ⟨r', her', hh', hin'⟩ := hr r her hin
    exact ⟨r', her', hh'.trans hh, hin'⟩
  · intro v s hash hash' h1 h2
    exact h.unique v s hash hash' (h1.of_silent ho) (h2.of_silent ho)

theorem VoteInv.moved (h : VoteInv evs e) (ho : voteOf ev.out = none)
    (hlt : e.currentView.toNat < e'.currentView.toNat ∧ e'.nextSequence = e.nextSequence ∨
      e'.currentView = e.currentView ∧ e.nextSequence.toNat < e'.nextSequence.toNat) :
    VoteInv (evs ++ [ev]) e' := by
  refine ⟨?_, ?_, ?_⟩
  · intro v s hash hvt
    have hb := h.bound v s hash (hvt.of_silent ho)
    rcases hlt with ⟨hv, hs⟩ | ⟨hv, hs⟩
    · rw [hs]
      omega
    · rw [hv]
      omega
  · intro hash hvt
    have hb := h.bound _ _ hash (hvt.of_silent ho)
    rcases hlt with ⟨hv, hs⟩ | ⟨hv, hs⟩ <;> omega
  · intro v s hash hash' h1 h2
    exact h.unique v s hash hash' (h1.of_silent ho) (h2.of_silent ho)

theorem VoteInv.cast (h : VoteInv evs e) {r : ConsensusRound}
    (hot : voteOf ev.out = some (e.currentView, e.nextSequence, r.proposalHash))
    (hv : e'.currentView = e.currentView) (hs : e'.nextSequence = e.nextSequence)
    (hr : e'.currentRound = some r) (hin : votedIn r = true)
    (ho : ∀ hash, Voted evs e.currentView e.nextSequence hash → hash = r.proposalHash) :
    VoteInv (evs ++ [ev]) e' := by
  have hcs : ∀ v s hash, Voted (evs ++ [ev]) v s hash → Voted evs v s hash ∨
      v = e.currentView ∧ s = e.nextSequence ∧ hash = r.proposalHash := by
    intro v s hash hvt
    rcases voted_append.mp hvt with hvt | hvt
    · exact Or.inl hvt
    · rw [hot] at hvt
      obtain ⟨rfl, rfl, rfl⟩ := some_vote_inj hvt
      exact Or.inr ⟨rfl, rfl, rfl⟩
  have hcr : ∀ hash, Voted (evs ++ [ev]) e.currentView e.nextSequence hash →
      hash = r.proposalHash := by
    intro hash hvt
    rcases hcs _ _ _ hvt with hvt | ⟨-, -, hh⟩
    · exact ho hash hvt
    · exact hh
  refine ⟨?_, ?_, ?_⟩
  · intro v s hash hvt
    rw [hv, hs]
    rcases hcs v s hash hvt with hvt | ⟨rfl, rfl, -⟩
    · exact h.bound v s hash hvt
    · exact ⟨le_refl _, le_refl _⟩
  · intro hash hvt
    rw [hv, hs] at hvt
    exact ⟨r, hr, (hcr hash hvt).symm, hin⟩
  · intro v s hash hash' h1 h2
    rcases hcs v s hash h1 with h1' | ⟨rfl, rfl, rfl⟩
    · rcases hcs v s hash' h2 with h2' | ⟨rfl, rfl, rfl⟩
      · exact h.unique v s hash hash' h1' h2'
      · exact hcr hash h1
    · exact (hcr hash' h2).symm

/-- **One call keeps the vote invariant**, provided it neither replaces a round that was voted in
nor re-enters a view. -/
theorem VoteInv.step (h : VoteInv evs e) (hst : StateInv C kp e) (hs : EngineStep C e ev e')
    (hk : KeepsRound C ev) (ha : ViewsAhead (· < ·) C ev) : VoteInv (evs ++ [ev]) e' := by
  obtain ⟨env, pre, op, out, after⟩ := ev
  have hb : pre = e := hs.1
  have hov : out ≠ .overflow := hs.2.2.2
  have ht : Trans C env e op out e' := hs.trans
  subst hb
  have hen : ∀ w, e' = enterView pre w → pre.currentView < w → voteOf out = none →
      VoteInv (evs ++ [⟨env, pre, op, out, after⟩]) e' := by
    intro w he hlt hot
    refine h.moved hot (Or.inl ⟨?_, ?_⟩)
    · rw [he]
      exact UInt64.lt_iff_toNat_lt.mp hlt
    · rw [he]
      rfl
  cases ht with
  | rejected | viewChangeStarted | viewChangeIgnored | viewChangeCounted =>
    exact h.silent rfl rfl rfl (fun r hr hin => ⟨r, hr, rfl, hin⟩)
  | proposed ct data hl hsd =>
    -- the replaced round was not voted in, so nothing was voted here yet
    refine h.silent rfl rfl rfl (fun r hr hin => ?_)
    have hno : (env.amILeader pre.currentView &&
      decide (ct = .configUpdate → env.sudoKey = pre.keypair.hotkey)) = false := hk r hr hin
    rw [hl, decide_eq_true hsd] at hno
    cases hno
  | accepted p hc =>
    have hh := ((checkProposal_ok_iff C env pre p).mp hc).2.2.2.1
    refine h.cast rfl rfl rfl rfl rfl ?_
    intro hash hvo
    obtain ⟨r, hr, rfl, hin⟩ := h.current hash hvo
    have hno : (decide (checkProposal C env pre p = .ok ()) &&
      decide (p.proposal.dataHash ≠ r.proposalHash)) = false := hk r hr hin
    rw [decide_eq_true hc, Bool.true_and, decide_eq_false_iff_not, not_not] at hno
    exact hno.symm.trans hh.symm
  | prePrepared v s hash =>
    refine h.silent rfl rfl rfl (fun r hr hin => ?_)
    exact ⟨{ r with prePrepare := some (newPrePrepare C env pre v s hash) },
      congrArg (Option.map _) hr, rfl, hin⟩
  | prepareCounted r p hr =>
    refine h.silent rfl rfl rfl (fun r' hr' hin => ?_)
    obtain rfl : r = r' := Option.some.inj (hr.symm.trans hr')
    exact ⟨addPrepare r p, rfl, rfl, hin⟩
  | prepareQuorum r p c hr hc hn hq hp hcm =>
    have hok := hst.round r hr
    have hvo : voteOf (.ok (.commit (some c))) =
        some (pre.currentView, pre.nextSequence, r.proposalHash) := by
      rw [hcm, ← hok.view, ← hok.sequence]
      rfl
    refine h.cast (r := addOwnCommit (addPrepare r p) c) hvo rfl rfl rfl (Bool.or_true _) ?_
    intro hash hvt
    obtain ⟨r', hr', rfl, -⟩ := h.current hash hvt
    obtain rfl : r = r' := Option.some.inj (hr.symm.trans hr')
    rfl
  | commitCounted r c hr =>
    refine h.silent rfl rfl rfl (fun r' hr' hin => ?_)
    obtain rfl : r = r' := Option.some.inj (hr.symm.trans hr')
    exact ⟨addCommit r c, rfl, rfl, hin⟩
  | decided r c p hr hc hn hq hph hp ho =>
    refine h.moved rfl (Or.inr ⟨rfl, ?_⟩)
    show pre.nextSequence.toNat < (pre.nextSequence + 1).toNat
    rw [toNat_succ ho]
    exact Nat.lt_succ_self _
  | noProposal r c err hr hp => exact absurd hp (hst.round r hr).proposal_ne_none
  | overflow => exact absurd rfl hov
  | newViewFormed vc st hc hsl hsa =>
    refine hen vc.newView ?_ (ha _ (if_pos (checkViewChange_signed hc))) rfl
    rw [newView_of_counted hsa]
  | newViewEntered m hc => exact hen _ rfl (ha _ (if_pos (checkNewView_signed hc))) rfl

theorem EngineRun.voteInv (h : EngineRun C kp evs e) (hkp : ∀ ev ∈ evs, KeepsRound C ev)
    (hah : ∀ ev ∈ evs, ViewsAhead (· < ·) C ev) : VoteInv evs e := by
  have h' : Run (fun s ev s' => EngineStep C s ev s' ∧ KeepsRound C ev ∧ ViewsAhead (· < ·) C ev)
      (Engine.new kp) evs e := Run.restrict h
    fun ev hev => ⟨hkp ev hev, hah ev hev⟩
  refine Run.logInvariant ?_ ?_ h'
  · refine ⟨?_, ?_, ?_⟩
    · rintro v s hash ⟨ev, hev, -⟩
      cases hev
    · rintro hash ⟨ev, hev, -⟩
      cases hev
    · rintro v s hash hash' ⟨ev, hev, -⟩
      cases hev
  · rintro l s ev s' hr hP ⟨hs, hk, ha⟩
    have hrun : EngineRun C kp l s := Run.mono (fun _ _ _ hx => hx.1) hr
    exact hP.step hrun.stateInv hs hk ha

end

/-- **No double vote.**  In every run in which no voted round is replaced and no view is entered
again, all prepares of one view and sequence carry one hash, and so do all commits. -/
theorem no_double_vote (C : Crypto) (kp : Keypair) (evs : List Event) (e : Engine)
    (h : EngineRun C kp evs e) (hkeep : ∀ ev ∈ evs, KeepsRound C ev)
    (hahead : ∀ ev ∈ evs, ViewsAhead (· < ·) C ev) : NoDoubleVote evs := by
  have hiv := h.voteInv hkeep hahead
  constructor
  · intro ev₁ h1 ev₂ h2 p₁ p₂ ho1 ho2 hv hs
    apply hiv.unique p₁.view p₁.sequence
    · exact ⟨ev₁, h1, by rw [ho1]; rfl⟩
    · exact ⟨ev₂, h2, by rw [ho2, hv, hs]; rfl⟩
  · intro ev₁ h1 ev₂ h2 c₁ c₂ ho1 ho2 hv hs
    apply hiv.unique c₁.view c₁.sequence
    · exact ⟨ev₁, h1, by rw [ho1]; rfl⟩
    · exact ⟨ev₂, h2, by rw [ho2, hv, hs]; rfl⟩

/-- Validator `1` takes part in a decision. -/
theorem no_double_vote_sample :
    let run := calls sampleCrypto (sampleKey 1) (sampleRound [7])
    (∃ ev ∈ run.1, ev.out = .ok (.prepare (samplePrepare 1 [7]))) ∧
      (∃ ev ∈ run.1, ev.out = .ok (.commit (some (sampleCommit 1 [7])))) ∧ NoDoubleVote run.1 :=
  ⟨by decide +kernel, by decide +kernel, no_double_vote sampleCrypto (sampleKey 1) _ _
    (engineRun_calls _ _ _ (by decide +kernel)) (by decide +kernel) (by decide +kernel)⟩

/-- **A second proposal gets a second vote.**  The leader of view `0` sends validator `1` two
proposals for sequence `1`, and both are answered by a prepare. -/
theorem no_double_vote_equivocation :
    ¬ ∀ (C : Crypto) (kp : Keypair) (evs : List Event) (e : Engine), EngineRun C kp evs e →
      NoDoubleVote evs := by
  intro h
  have hrun := engineRun_calls sampleCrypto (sampleKey 1)
    [(sampleEnv 1 1, .handleProposal (sampleProposal .weightUpdate [7])),
      (sampleEnv 1 1, .handleProposal (sampleProposal .weightUpdate [8]))] (by decide +kernel)
  have hs := (h _ _ _ _ hrun).1 _ List.mem_cons_self _
    (List.mem_cons_of_mem _ List.mem_cons_self) (samplePrepare 1 [7]) (samplePrepare 1 [8])
    (by decide +kernel) (by decide +kernel) rfl rfl
  revert hs
  decide +kernel

end Platform.Consensus
