import Platform.Network.Gossip

/-!
# Whose budget a message spends

The rate limit of a signer is checked, and spent, before the nonce is looked up.  So a message that
is sent again by anybody is counted against its signer before it is refused as a replay.
-/

namespace Platform.Network
open Lib Platform.Core Consensus List

section
variable (C : Crypto) (W : Wire)

/-- the validly signed message that a call brings, with the time of its rate-limit check -/
def delivered (c : NetCall) : Option (SignedP2PMessage × Int) :=
  match c.input with
  | .handle _ data t₁ _ =>
    match W.decode data with
    | .ok m => if verifyMessage C W m then some (m, t₁) else none
    | .error _ => none
  | _ => none

def acceptedMessage (c : NetCall) : Option (SignedP2PMessage × Int) :=
  if accepted c then delivered C W c else none

variable (l : List NetCall)

def NoRepeats : Prop :=
  l.Pairwise fun c c' => ∀ a ∈ acceptedMessage C W c, ∀ b ∈ delivered C W c',
    ¬ (a.1.signer = b.1.signer ∧ a.1.nonce = b.1.nonce)

instance : Decidable (NoRepeats C W l) := by
  unfold NoRepeats
  infer_instance

/-- the different messages of `s` that arrived in the last second before `now` -/
def sentRecently (s : Hotkey) (now : Int) : Finset SignedP2PMessage :=
  (((l.filterMap (delivered C W)).filter fun a =>
    decide (a.1.signer = s ∧ now - a.2 ≤ rateLimitWindowMs)).map Prod.fst).toFinset

def acceptedOf (s : Hotkey) : List (SignedP2PMessage × Int) :=
  (l.filterMap (acceptedMessage C W)).filter fun a => decide (a.1.signer = s)

def acceptedTimes (s : Hotkey) : List Int := (acceptedOf C W l s).map Prod.snd

structure RateInv (net : P2PNetwork) : Prop where
  seen : ∀ s n t, (net.nonces s).lookup n = some t →
    ∃ c ∈ l, ∃ a ∈ acceptedMessage C W c, a.1.signer = s ∧ a.1.nonce = n
  queue : ∀ s, (net.queue s).Sublist (acceptedTimes C W l s)

end

section
variable {C : Crypto} {W : Wire} {net net' : P2PNetwork} {c : NetCall} {l : List NetCall}

theorem NoRepeats.append_left {l' : List NetCall} (h : NoRepeats C W (l ++ l')) : NoRepeats C W l :=
  (pairwise_append.mp h).1

theorem delivered_iff (c : NetCall) (m : SignedP2PMessage) (t : Int) :
    delivered C W c = some (m, t) ↔ ∃ src data t₂, c.input = .handle src data t t₂ ∧
      W.decode data = .ok m ∧ verifyMessage C W m = true := by
  constructor
  · intro h
    unfold delivered at h
    split at h
    · rename_i src data t₁ t₂ hin
      split at h
      · rename_i m' hd
        split at h
        · rename_i hv
          cases h
          exact ⟨src, data, t₂, hin, hd, hv⟩
        · cases h
      · cases h
    · cases h
  · rintro ⟨src, data, t₂, hin, hd, hv⟩
    simp [delivered, hin, hd, hv]

theorem delivered_of_accepted {a : SignedP2PMessage × Int} (h : acceptedMessage C W c = some a) :
    delivered C W c = some a := by
  unfold acceptedMessage at h
  split at h
  · exact h
  · cases h

theorem delivered_handle {src : PeerId} {data : Bytes} {t₁ t₂ : Int} {m : SignedP2PMessage}
    (hin : c.input = .handle src data t₁ t₂) (hd : W.decode data = .ok m)
    (hv : verifyMessage C W m = true) : delivered C W c = some (m, t₁) :=
  (delivered_iff c m t₁).mpr ⟨src, data, t₂, hin, hd, hv⟩

theorem acceptedOf_snoc (s : Hotkey) : acceptedOf C W (l ++ [c]) s =
    acceptedOf C W l s ++
      ((acceptedMessage C W c).toList.filter fun a => decide (a.1.signer = s)) := by
  simp only [acceptedOf, filterMap_append, filter_append]
  cases h : acceptedMessage C W c <;> simp [h]

theorem acceptedTimes_of_refused (h : acceptedMessage C W c = none) (s : Hotkey) :
    acceptedTimes C W (l ++ [c]) s = acceptedTimes C W l s := by
  simp [acceptedTimes, acceptedOf_snoc, h]

theorem acceptedTimes_of_accepted {a : SignedP2PMessage × Int}
    (h : acceptedMessage C W c = some a) (s : Hotkey) :
    acceptedTimes C W (l ++ [c]) s =
      acceptedTimes C W l s ++ if a.1.signer = s then [a.2] else [] := by
  by_cases hs : a.1.signer = s
  · simp [acceptedTimes, acceptedOf_snoc, h, hs]
  · simp [acceptedTimes, acceptedOf_snoc, h, hs]

theorem RateInv.refused (hi : RateInv C W l net) (hac : acceptedMessage C W c = none)
    (hnn : ∀ s n t, (net'.nonces s).lookup n = some t → (net.nonces s).lookup n = some t)
    (hqu : ∀ s, (net'.queue s).Sublist (net.queue s)) : RateInv C W (l ++ [c]) net' where
  seen := by
    intro s n t h
    obtain ⟨c', hc', ha⟩ := hi.seen s n t (hnn s n t h)
    exact ⟨c', mem_append_left _ hc', ha⟩
  queue := by
    intro s
    rw [acceptedTimes_of_refused hac]
    exact (hqu s).trans (hi.queue s)

theorem RateInv.not_replay (hi : RateInv C W l net) (hrp : NoRepeats C W (l ++ [c]))
    {m : SignedP2PMessage} {t now w : Int} (hdl : delivered C W c = some (m, t)) :
    m.nonce ∉ unexpired now w (net.nonces m.signer) := by
  intro hn
  rw [← AList.lookup_isSome, Option.isSome_iff_exists] at hn
  obtain ⟨t', ht'⟩ := hn
  rw [lookup_unexpired_iff] at ht'
  obtain ⟨c', hc', a, ha, hs, hnn⟩ := hi.seen _ _ _ ht'.1
  have hpr := (pairwise_append.mp hrp).2.2 c' hc' c mem_cons_self
  exact hpr a ha _ hdl ⟨hs, hnn⟩

theorem RateInv.accept (hi : RateInv C W l net) {m : SignedP2PMessage} {t₁ : Int}
    (hac : acceptedMessage C W c = some (m, t₁)) (t₂ : Int) (src : PeerId) :
    RateInv C W (l ++ [c])
      (mapPeer ((countMessage t₁ net m.signer).setNonces m.signer
        ((unexpired t₂ nonceExpiryMs (net.nonces m.signer)).insert m.nonce t₂)) src m.signer) where
  seen := by
    intro s n t h
    rw [nonces_mapPeer, nonces_setNonces] at h
    split at h
    · rename_i hs
      subst hs
      rw [HashMap.lookup_insert_iff] at h
      rcases h with ⟨rfl, rfl⟩ | ⟨-, h⟩
      · exact ⟨c, by simp, _, hac, rfl, rfl⟩
      · rw [lookup_unexpired_iff] at h
        obtain ⟨c', hc', ha⟩ := hi.seen _ _ _ h.1
        exact ⟨c', mem_append_left _ hc', ha⟩
    · obtain ⟨c', hc', ha⟩ := hi.seen _ _ _ h
      exact ⟨c', mem_append_left _ hc', ha⟩
  queue := by
    intro s
    rw [acceptedTimes_of_accepted hac, queue_mapPeer, queue_setNonces, countMessage, queue_setQueue]
    by_cases hs : s = m.signer
    · subst hs
      rw [if_pos rfl, if_pos rfl]
      exact ((recent_sublist _ _ _).trans (hi.queue _)).append (List.Sublist.refl _)
    · rw [if_neg hs, if_neg fun he => hs he.symm, append_nil]
      exact hi.queue s

theorem RateInv.step (hi : RateInv C W l net) (hs : CallStep (netNext C W) net c net')
    (hrp : NoRepeats C W (l ++ [c])) : RateInv C W (l ++ [c]) net' := by
  have hnx := hs.2.2
  cases hin : c.input with
  | handle src data t₁ t₂ =>
    obtain ⟨res, ho, hcs⟩ := CallStep.handled hs hin
    have hrf : (∀ m, res ≠ .ok m) → acceptedMessage C W c = none := by
      intro hrs
      unfold acceptedMessage accepted
      rw [ho]
      cases res with
      | ok m => exact absurd rfl (hrs m)
      | error err => rfl
    cases hcs with
    | undecodable err hd | badSignature m hd hv =>
      exact hi.refused (hrf (by simp)) (fun s n t h => h) fun s => List.Sublist.refl _
    | limited m hd hv hq =>
      refine hi.refused (hrf (by simp)) (fun s n t h => h) fun s => ?_
      rw [queue_setQueue]
      split
      · rename_i hsig
        subst hsig
        exact recent_sublist _ _ _
      · exact List.Sublist.refl _
    | replayed m hd hv hq hn => exact absurd hn (hi.not_replay hrp (delivered_handle hin hd hv))
    | accepted m hd hv hq hn =>
      refine hi.accept ?_ t₂ src
      unfold acceptedMessage accepted
      rw [ho]
      exact delivered_handle hin hd hv
  | cleanOldNonces secs now =>
    rw [hin] at hnx
    obtain ⟨ho, rfl⟩ := Prod.mk.inj hnx
    refine hi.refused (by simp [acceptedMessage, accepted, ← ho]) (fun s n t h => ?_)
      fun s => List.Sublist.refl _
    rw [nonces_cleanOldNonces, lookup_unexpired_iff] at h
    exact h.1
  | cleanRateLimitEntries now =>
    rw [hin] at hnx
    obtain ⟨ho, rfl⟩ := Prod.mk.inj hnx
    refine hi.refused (by simp [acceptedMessage, accepted, ← ho]) (fun s n t h => h) fun s => ?_
    rw [queue_cleanRateLimitEntries]
    exact recent_sublist _ _ _

theorem rateInv_run (h : NetRun C W .new l net) (hrp : NoRepeats C W l) : RateInv C W l net := by
  refine Run.logInvariant (P := fun l net => NoRepeats C W l → RateInv C W l net) ?_ ?_ h hrp
  · intro _
    refine ⟨fun s n t h => ?_, fun s => List.Sublist.refl _⟩
    cases h
  · rintro l s c s' - hP hst hrp'
    exact (hP hrp'.append_left).step hst hrp'

theorem acceptedTimes_sublist (l : List NetCall) (s : Hotkey) :
    (acceptedTimes C W l s).Sublist (readings l) := by
  induction l using reverseRecOn with
  | nil => exact List.Sublist.refl _
  | append_singleton l c ih =>
    rw [readings_append]
    cases ha : acceptedMessage C W c with
    | none =>
      rw [acceptedTimes_of_refused ha]
      exact ih.trans (sublist_append_left _ _)
    | some a =>
      rw [acceptedTimes_of_accepted ha]
      refine ih.append ?_
      obtain ⟨src, data, t₂, hin, -, -⟩ := (delivered_iff c a.1 a.2).mp (delivered_of_accepted ha)
      have hm : a.2 ∈ readings [c] := by simp [readings, hin, NetOp.times]
      split
      · exact singleton_sublist.mpr hm
      · exact nil_sublist _

theorem nodup_acceptedOf (hrp : NoRepeats C W l) (s : Hotkey) :
    ((acceptedOf C W l s).map Prod.fst).Nodup := by
  rw [List.Nodup, pairwise_map]
  refine List.Pairwise.filter _ ?_
  rw [pairwise_filterMap]
  refine List.Pairwise.imp ?_ hrp
  intro c c' h a ha b hb hab
  exact h a ha b (delivered_of_accepted hb) ⟨by rw [hab], by rw [hab]⟩

/-- **The counting argument**: the queue of a signer, pruned at `now`, is no longer than the number
of its own messages of the last second. -/
theorem recent_queue_le (h : NetRun C W .new l net) (hcl : ClockForward l)
    (hrp : NoRepeats C W l) (s : Hotkey) (now : Int) :
    (recent now rateLimitWindowMs (net.queue s)).length ≤ (sentRecently C W l s now).card := by
  have hiv := rateInv_run h hrp
  have hsu := hiv.queue s
  have hs : (net.queue s).Pairwise (· ≤ ·) :=
    List.Pairwise.sublist (hsu.trans (acceptedTimes_sublist l s)) hcl
  let win : SignedP2PMessage × Int → Bool := fun a => decide (now - a.2 ≤ rateLimitWindowMs)
  have hnd : (((acceptedOf C W l s).filter win).map Prod.fst).Nodup :=
    List.Nodup.sublist (filter_sublist.map _) (nodup_acceptedOf hrp s)
  have hsb : (((acceptedOf C W l s).filter win).map Prod.fst).toFinset ⊆
      sentRecently C W l s now := by
    intro m hm
    simp only [acceptedOf, sentRecently, mem_toFinset, mem_map, mem_filter,
      mem_filterMap, win, decide_eq_true_eq] at hm ⊢
    obtain ⟨a, ⟨⟨⟨c, hc, ha⟩, hsig⟩, hwn⟩, rfl⟩ := hm
    exact ⟨a, ⟨⟨c, hc, delivered_of_accepted ha⟩, hsig, hwn⟩, rfl⟩
  calc (recent now rateLimitWindowMs (net.queue s)).length
      = ((net.queue s).filter fun t => decide (now - t ≤ rateLimitWindowMs)).length := by
        rw [recent_eq_filter hs]
    _ ≤ ((acceptedTimes C W l s).filter fun t => decide (now - t ≤ rateLimitWindowMs)).length :=
        (hsu.filter _).length_le
    _ = (((acceptedOf C W l s).filter win).map Prod.fst).length := by
        rw [acceptedTimes, filter_map, length_map, length_map]
        rfl
    _ = (((acceptedOf C W l s).filter win).map Prod.fst).toFinset.card :=
        (toFinset_card_of_nodup hnd).symm
    _ ≤ (sentRecently C W l s now).card := Finset.card_le_card hsb

end

/-- **A signer spends its own budget only**, in every run in which the clock does not go back and no
message has the signer and nonce of one accepted before.  A message that is refused for its
signature or its nonce leaves the queue of its signer as it was; and a message whose signer has sent
fewer than 100 different ones in the last second is not refused for the rate limit. -/
theorem own_budget (C : Crypto) (W : Wire) (l : List NetCall) (net : P2PNetwork)
    (h : NetRun C W .new l net) (hclock : ClockForward l) (hrep : NoRepeats C W l) :
    (∀ c ∈ l, ∀ source data t₁ t₂ m, c.input = .handle source data t₁ t₂ → W.decode data = .ok m →
      (c.out = some (.error (.gossipsub "Invalid message signature")) ∨
        ∃ s n, c.out = some (.error (.replayAttack s n))) →
      c.after.messageTimestamps.lookup m.signer = c.before.messageTimestamps.lookup m.signer) ∧
    (∀ l₁ c l₂, l = l₁ ++ c :: l₂ → ∀ m t, delivered C W c = some (m, t) →
      (sentRecently C W l₁ m.signer t).card < rateLimit →
      ∀ s n, c.out ≠ some (.error (.rateLimitExceeded s n))) := by
  constructor
  · intro c hc source data t₁ t₂ m hin hd ho
    obtain ⟨l₁, l₂, n₁, n₂, rfl, hrun, hst, -⟩ := Run.mem_split h hc
    obtain ⟨res, hrs, hcs⟩ := CallStep.handled hst hin
    have hr' : NoRepeats C W (l₁ ++ [c]) := by
      rw [show l₁ ++ c :: l₂ = (l₁ ++ [c]) ++ l₂ by simp] at hrep
      exact hrep.append_left
    rw [hst.1, hst.2.1]
    cases hcs with
    | undecodable err hd' => rfl
    | badSignature m' hd' hv => rfl
    | limited m' hd' hv hq | accepted m' hd' hv hq hn =>
      rw [hrs] at ho
      simp at ho
    | replayed m' hd' hv hq hn =>
      have hiv := rateInv_run hrun hr'.append_left
      exact absurd hn (hiv.not_replay hr' (delivered_handle hin hd' hv))
  · rintro l₁ c l₂ rfl m t hdl hfw s n ho
    obtain ⟨n₁, hrun, h1⟩ := Run.split h
    obtain ⟨n₂, hst, -⟩ := Run.head h1
    have hc' : ClockForward l₁ := by
      unfold ClockForward at hclock
      rw [readings_append] at hclock
      exact (pairwise_append.mp hclock).1
    have hle := recent_queue_le hrun hc' hrep.append_left m.signer t
    obtain ⟨source, data, t₂, hin, hd, hv⟩ := (delivered_iff c m t).mp hdl
    obtain ⟨res, hrs, hcs⟩ := CallStep.handled hst hin
    obtain rfl : _ = res := Option.some_inj.mp (ho.symm.trans hrs)
    generalize hrs' : (Except.error (NetworkError.rateLimitExceeded s n) :
      Except NetworkError P2PMessage) = res at hcs
    cases hcs with
    | limited m' hd' hv' hq =>
      obtain rfl : m = m' := Except.ok.inj (hd.symm.trans hd')
      omega
    | _ => cases hrs'

/-- the heartbeat number `n` of validator `1` -/
def sampleBeat (n : UInt64) : SignedP2PMessage := sampleSigned 1 n (sampleHeartbeat 1 1000)

/-- a message in the name of validator `1` without its signature -/
def sampleForged : SignedP2PMessage := { sampleBeat 3 with signature := [] }

def sampleBeats : Wire := sampleWire [sampleBeat 1, sampleBeat 2, sampleForged]

/-- Two heartbeats are accepted and a forged one in between is refused. -/
theorem own_budget_sample :
    let run := trace (netNext sampleCrypto sampleBeats) .new
      [arrives (sampleBeat 1) 0, arrives sampleForged 5, arrives (sampleBeat 2) 10]
    run.1.map accepted = [true, false, true] ∧
    (∀ c ∈ run.1, ∀ src data t₁ t₂ m, c.input = .handle src data t₁ t₂ →
      sampleBeats.decode data = .ok m →
      (c.out = some (.error (.gossipsub "Invalid message signature")) ∨
        ∃ s n, c.out = some (.error (.replayAttack s n))) →
      c.after.messageTimestamps.lookup m.signer = c.before.messageTimestamps.lookup m.signer) ∧
    (∀ l₁ c l₂, run.1 = l₁ ++ c :: l₂ → ∀ m t, delivered sampleCrypto sampleBeats c = some (m, t) →
      (sentRecently sampleCrypto sampleBeats l₁ m.signer t).card < rateLimit →
      ∀ s n, c.out ≠ some (.error (.rateLimitExceeded s n))) :=
  ⟨by decide +kernel, own_budget _ _ _ _ (machineRun_trace _ _ _) (by decide +kernel)
    (by decide +kernel)⟩

/-- **A peer spends the budget of another signer.**  The second delivery of the same heartbeat is
refused as a replay, after it was counted. -/
theorem own_budget_spent_by_peer :
    ¬ ∀ (C : Crypto) (W : Wire) (l : List NetCall) (net : P2PNetwork), NetRun C W .new l net →
      ClockForward l →
      ∀ c ∈ l, ∀ source data t₁ t₂ m, c.input = .handle source data t₁ t₂ → W.decode data = .ok m →
      (c.out = some (.error (.gossipsub "Invalid message signature")) ∨
        ∃ s n, c.out = some (.error (.replayAttack s n))) →
      c.after.messageTimestamps.lookup m.signer = c.before.messageTimestamps.lookup m.signer := by
  intro h
  have hrun := machineRun_trace (netNext sampleCrypto sampleBeats) .new
    [arrives (sampleBeat 1) 0, arrives (sampleBeat 1) 20]
  have hs := h _ _ _ _ hrun (by decide +kernel) _ (mem_cons_of_mem _ mem_cons_self)
    ⟨[1]⟩ (samplePayload (sampleBeat 1)) 20 20 (sampleBeat 1) rfl (by decide +kernel)
    (Or.inr ⟨(Hotkey.ofByte 1).toHex, 1, by decide +kernel⟩)
  revert hs
  decide +kernel

end Platform.Network
