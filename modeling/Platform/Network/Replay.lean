import Platform.Network.Gossip

/-!
# Replay protection

An accepted nonce is remembered with the time at which it was seen.  It is forgotten when it is
`NONCE_EXPIRY_MS` (five minutes) old, or when `clean_old_nonces` is called with a smaller age that
it has reached.  Until then no message with the same signer and nonce is accepted.
-/

namespace Platform.Network
open Lib Platform.Core Consensus

def Cleans (c : NetCall) (t : Int) : Prop :=
  ∃ secs now, c.input = .cleanOldNonces secs now ∧ maxAgeMs secs ≤ now - t

/-- a reading of the clock in `c` is five minutes or more after `t` -/
def Expires (c : NetCall) (t : Int) : Prop := ∃ t' ∈ c.input.times, nonceExpiryMs ≤ t' - t

section
variable {C : Crypto} {W : Wire} {net net' : P2PNetwork} {c : NetCall} {l : List NetCall}

theorem Accepts.nonce {m : SignedP2PMessage} {t₁ t₂ : Int} (ha : Accepts W c m t₁ t₂)
    (hs : CallStep (netNext C W) net c net') :
    m.nonce ∉ unexpired t₂ nonceExpiryMs (net.nonces m.signer) ∧
      (net'.nonces m.signer).lookup m.nonce = some t₂ := by
  obtain ⟨src, data, hin, hd, ho⟩ := ha
  obtain ⟨res, hrs, hcs⟩ := CallStep.handled hs hin
  obtain rfl : res = .ok m.message := Option.some_inj.mp (hrs.symm.trans ho)
  generalize hrs' : (Except.ok m.message : Except NetworkError P2PMessage) = res at hcs
  cases hcs with
  | accepted m' hd' hv hq hn =>
    obtain rfl : m = m' := Except.ok.inj (hd.symm.trans hd')
    refine ⟨hn, ?_⟩
    rw [nonces_mapPeer, nonces_setNonces, if_pos rfl, AList.lookup_insert]
  | _ => cases hrs'

theorem pruned_keeps {s : Hotkey} {n : UInt64} {t : Int} (t₂ : Int)
    (h : (net.nonces s).lookup n = some t) (signer : Hotkey) :
    (if s = signer then unexpired t₂ nonceExpiryMs (net.nonces signer)
      else net.nonces s).lookup n = some t ∨ nonceExpiryMs ≤ t₂ - t := by
  by_cases hs : s = signer
  · subst hs
    rw [if_pos rfl]
    by_cases hlt : t₂ - t < nonceExpiryMs
    · exact Or.inl ((lookup_unexpired_iff _ _ _ _ _).mpr ⟨h, hlt⟩)
    · exact Or.inr (not_lt.mp hlt)
  · rw [if_neg hs]
    exact Or.inl h

/-- **One call** keeps a remembered nonce, unless it cleans it or comes five minutes later. -/
theorem CallStep.keeps_nonce (hs : CallStep (netNext C W) net c net') {s : Hotkey} {n : UInt64}
    {t : Int} (h : (net.nonces s).lookup n = some t) :
    (net'.nonces s).lookup n = some t ∨ Cleans c t ∨ Expires c t := by
  have hnx := hs.2.2
  cases hin : c.input with
  | handle src data t₁ t₂ =>
    obtain ⟨res, -, hcs⟩ := CallStep.handled hs hin
    have hpr := pruned_keeps t₂ h
    have hex : nonceExpiryMs ≤ t₂ - t → Expires c t :=
      fun ho => ⟨t₂, by simp [hin, NetOp.times], ho⟩
    cases hcs with
    | undecodable err hd | badSignature m hd hv | limited m hd hv hq => exact Or.inl h
    | replayed m hd hv hq hn =>
      rw [nonces_setNonces]
      exact (hpr m.signer).imp_right fun ho => Or.inr (hex ho)
    | accepted m hd hv hq hn =>
      rw [nonces_mapPeer, nonces_setNonces]
      refine (hpr m.signer).imp (fun hk => ?_) fun ho => Or.inr (hex ho)
      by_cases hsg : s = m.signer
      · -- the nonce that is added is not the remembered one
        rw [if_pos hsg] at hk
        have hnm : n ≠ m.nonce := by
          rintro rfl
          exact hn (HashMap.mem_of_lookup hk)
        rw [if_pos hsg, AList.lookup_insert_ne hnm]
        exact hk
      · rw [if_neg hsg]
        exact h
  | cleanOldNonces secs now =>
    rw [hin] at hnx
    rw [← (Prod.mk.inj hnx).2, nonces_cleanOldNonces]
    by_cases hlt : now - t < maxAgeMs secs
    · exact Or.inl ((lookup_unexpired_iff _ _ _ _ _).mpr ⟨h, hlt⟩)
    · exact Or.inr (Or.inl ⟨secs, now, hin, not_lt.mp hlt⟩)
  | cleanRateLimitEntries now =>
    rw [hin] at hnx
    rw [← (Prod.mk.inj hnx).2]
    exact Or.inl h

theorem NetRun.keeps_nonce (hrun : NetRun C W net l net') {s : Hotkey} {n : UInt64} {t : Int}
    (h : (net.nonces s).lookup n = some t) :
    (net'.nonces s).lookup n = some t ∨ ∃ c ∈ l, Cleans c t ∨ Expires c t := by
  refine Run.logInvariant (P := fun l net' => (net'.nonces s).lookup n = some t ∨
    ∃ c ∈ l, Cleans c t ∨ Expires c t) (Or.inl h) ?_ hrun
  rintro l s₁ c s₂ - hP hst
  rcases hP with hk | ⟨c', hc', hf⟩
  · rcases CallStep.keeps_nonce hst hk with hk | hf
    · exact Or.inl hk
    · exact Or.inr ⟨c, by simp, hf⟩
  · exact Or.inr ⟨c', List.mem_append_left _ hc', hf⟩

end

/-- **The replay window.**  While the clock does not go back, two messages with the same signer and
nonce are both accepted only if the second is accepted at least five minutes after the first, or if
`clean_old_nonces` was called in between with an age that the first had reached. -/
theorem replay_window (C : Crypto) (W : Wire) (net net' : P2PNetwork) (l : List NetCall)
    (h : NetRun C W net l net') (hclock : ClockForward l) :
    ∀ l₁ c l₂ c' l₃, l = l₁ ++ c :: (l₂ ++ c' :: l₃) → ∀ m t₁ t₂ m' u₁ u₂,
      Accepts W c m t₁ t₂ → Accepts W c' m' u₁ u₂ → m'.signer = m.signer → m'.nonce = m.nonce →
      nonceExpiryMs ≤ u₂ - t₂ ∨ ∃ d ∈ l₂, Cleans d t₂ := by
  rintro l₁ c l₂ c' l₃ rfl m t₁ t₂ m' u₁ u₂ hc hc' hsg hnn
  obtain ⟨n₁, -, h1⟩ := Run.split h
  obtain ⟨n₂, hst, h2⟩ := Run.head h1
  obtain ⟨n₃, hm, h3⟩ := Run.split h2
  obtain ⟨n₄, hst', -⟩ := Run.head h3
  have hs := (hc.nonce hst).2
  have hfr := (hc'.nonce hst').1
  rw [hsg, hnn] at hfr
  rcases NetRun.keeps_nonce hm hs with hk | ⟨d, hd, hcn | ⟨t, ht, hex⟩⟩
  · -- still remembered, so it must have expired at `u₂`
    refine Or.inl (not_lt.mp fun hlt => hfr ?_)
    exact HashMap.mem_of_lookup ((lookup_unexpired_iff _ _ _ _ _).mpr ⟨hk, hlt⟩)
  · exact Or.inr ⟨d, hd, hcn⟩
  · -- expired at an earlier reading `t ≤ u₂`
    left
    obtain ⟨source, data, hin, -, -⟩ := hc'
    have hu : u₂ ∈ readings (c' :: l₃) := by simp [readings, hin, NetOp.times]
    have htd : t ∈ readings l₂ := List.mem_flatMap.mpr ⟨d, hd, ht⟩
    have hpr : ∀ x ∈ readings l₂, ∀ y ∈ readings (c' :: l₃), x ≤ y := by
      have hcl : (readings (l₁ ++ c :: (l₂ ++ c' :: l₃))).Pairwise (· ≤ ·) := hclock
      rw [readings_append, List.pairwise_append] at hcl
      have hcl' := hcl.2.1
      rw [show c :: (l₂ ++ c' :: l₃) = [c] ++ (l₂ ++ c' :: l₃) from rfl, readings_append,
        List.pairwise_append, readings_append, List.pairwise_append] at hcl'
      exact hcl'.2.1.2.2
    have hle := hpr t htd u₂ hu
    omega

def sampleFirst : SignedP2PMessage := sampleSigned 1 1 (sampleHeartbeat 1 1000)

/-- The same heartbeat is accepted at time `0` and, after `clean_old_nonces(60)` at one minute,
again. -/
theorem replay_window_sample :
    let run := trace (netNext sampleCrypto (sampleWire [sampleFirst])) .new
      [arrives sampleFirst 0, .cleanOldNonces 60 60000, arrives sampleFirst 60000]
    run.1.map accepted = [true, false, true] ∧
      ∀ l₁ c l₂ c' l₃, run.1 = l₁ ++ c :: (l₂ ++ c' :: l₃) → ∀ m t₁ t₂ m' u₁ u₂,
        Accepts (sampleWire [sampleFirst]) c m t₁ t₂ →
        Accepts (sampleWire [sampleFirst]) c' m' u₁ u₂ →
        m'.signer = m.signer → m'.nonce = m.nonce →
        nonceExpiryMs ≤ u₂ - t₂ ∨ ∃ d ∈ l₂, Cleans d t₂ :=
  ⟨by decide +kernel, replay_window _ _ _ _ _ (machineRun_trace _ _ _) (by decide +kernel)⟩

/-- **A replay after five minutes is accepted.** -/
theorem replay_after_expiry :
    ¬ ∀ (C : Crypto) (W : Wire) (l : List NetCall) (net : P2PNetwork), NetRun C W .new l net →
      ClockForward l → ∀ l₁ c l₂ c' l₃, l = l₁ ++ c :: (l₂ ++ c' :: l₃) → ∀ m t₁ t₂ u₁ u₂,
      Accepts W c m t₁ t₂ → ¬ Accepts W c' m u₁ u₂ := by
  intro h
  have hrun := machineRun_trace (netNext sampleCrypto (sampleWire [sampleFirst])) .new
    [arrives sampleFirst 0, arrives sampleFirst 300000]
  exact h _ _ _ _ hrun (by decide +kernel) [] _ [] _ [] rfl sampleFirst 0 0 300000 300000
    ⟨_, _, rfl, by decide +kernel, by decide +kernel⟩
    ⟨_, _, rfl, by decide +kernel, by decide +kernel⟩

end Platform.Network
