import Mathlib.Data.List.TakeWhile
import Platform.Network.Gossip

/-!
# The sliding window of the rate limit

The two calls that touch the queues of the rate limit, at times that do not go back.  A queue holds
the accepted times of its signer, without those that were too old for some call (`QueueInv`).
-/

namespace Platform.Network
open Lib Platform.Core Consensus List

inductive LimitOp where
  | check (signer : Hotkey) (now : Int)
  | clean (now : Int)

def LimitOp.time : LimitOp → Int
  | check _ now | clean now => now

def limitNext (net : P2PNetwork) : LimitOp → Except NetworkError Unit × P2PNetwork
  | .check signer now => checkRateLimit now net signer
  | .clean now => (.ok (), cleanRateLimitEntries now net)

abbrev LimitCall := Call P2PNetwork LimitOp (Except NetworkError Unit)

def accepts (s : Hotkey) (c : LimitCall) : Bool :=
  match c.input, c.out with
  | .check signer _, .ok () => decide (signer = s)
  | _, _ => false

/-- the times at which messages of `s` were accepted -/
def acceptances (l : List LimitCall) (s : Hotkey) : List Int :=
  (l.filter (accepts s)).map fun c => c.input.time

/-- how many of the times are in the closed interval from `t` to `t'` -/
def within (t t' : Int) (times : List Int) : Nat :=
  times.countP fun x => decide (t ≤ x ∧ x ≤ t')

def ClockOf (l : List LimitCall) : Prop := (l.map fun c => c.input.time).Pairwise (· ≤ ·)

/-- what a call does to the queue `q` of `s` -/
inductive QueueStep (s : Hotkey) (c : LimitCall) (q : List Int) : List Int → Prop
  | untouched : accepts s c = false → QueueStep s c q q
  | pruned : accepts s c = false → QueueStep s c q (recent c.input.time rateLimitWindowMs q)
  | counted : accepts s c = true →
      (recent c.input.time rateLimitWindowMs q).length < rateLimit →
      QueueStep s c q (recent c.input.time rateLimitWindowMs q ++ [c.input.time])

structure QueueInv (s : Hotkey) (l : List LimitCall) (q : List Int) : Prop where
  split : ∃ old, acceptances l s = old ++ q ∧
    ∀ t ∈ old, ∃ c ∈ l, c.input.time - t > rateLimitWindowMs
  few : ∀ t, within t (t + rateLimitWindowMs) (acceptances l s) ≤ rateLimit

section
variable {l : List LimitCall} {c : LimitCall} {net net' : P2PNetwork} {s : Hotkey} {q q' : List Int}

theorem queueStep (h : CallStep limitNext net c net') (s : Hotkey) :
    QueueStep s c (net.queue s) (net'.queue s) := by
  obtain ⟨pre, inp, out, after⟩ := c
  obtain ⟨-, -, hnx⟩ := h
  cases inp with
  | clean now =>
    obtain ⟨rfl, rfl⟩ := Prod.mk.inj hnx
    rw [queue_cleanRateLimitEntries]
    exact .pruned rfl
  | check signer now =>
    simp only [limitNext, checkRateLimit] at hnx
    split at hnx
    all_goals
      obtain ⟨rfl, rfl⟩ := Prod.mk.inj hnx
      rw [queue_setQueue]
      split
    · rename_i hs
      exact hs ▸ .pruned rfl
    · exact .untouched rfl
    · rename_i hfw hs
      subst hs
      exact .counted (decide_eq_true rfl) (Nat.not_le.mp hfw)
    · rename_i hs
      exact .untouched (decide_eq_false (Ne.symm hs))

theorem acceptances_snoc : acceptances (l ++ [c]) s =
    acceptances l s ++ if accepts s c then [c.input.time] else [] := by
  unfold acceptances
  split <;> simp [*]

theorem QueueInv.split_recent (hi : QueueInv s l q) (c : LimitCall) : ∃ old,
    acceptances l s = old ++ recent c.input.time rateLimitWindowMs q ∧
    ∀ t ∈ old, ∃ c' ∈ l ++ [c], c'.input.time - t > rateLimitWindowMs := by
  obtain ⟨old, heq, ho⟩ := hi.split
  let tooOld : Int → Bool := fun t => decide (c.input.time - t > rateLimitWindowMs)
  refine ⟨old ++ q.takeWhile tooOld, ?_, fun t ht => ?_⟩
  · rw [heq, append_assoc]
    exact congrArg (old ++ ·) takeWhile_append_dropWhile.symm
  · rcases mem_append.mp ht with ht | ht
    · obtain ⟨c', hc', hlt⟩ := ho t ht
      exact ⟨c', mem_append_left _ hc', hlt⟩
    · have hto : tooOld t = true := mem_takeWhile_imp ht
      exact ⟨c, by simp, of_decide_eq_true hto⟩

theorem QueueInv.step (hi : QueueInv s l q) (hst : QueueStep s c q q')
    (hcl : ∀ c' ∈ l, c'.input.time ≤ c.input.time) : QueueInv s (l ++ [c]) q' := by
  cases hst with
  | untouched hc =>
    obtain ⟨old, heq, ho⟩ := hi.split
    have ha : acceptances (l ++ [c]) s = acceptances l s := by simp [acceptances_snoc, hc]
    refine ⟨⟨old, ha.trans heq, fun t ht => ?_⟩, ha ▸ hi.few⟩
    obtain ⟨c', hc', hlt⟩ := ho t ht
    exact ⟨c', mem_append_left _ hc', hlt⟩
  | pruned hc =>
    have ha : acceptances (l ++ [c]) s = acceptances l s := by simp [acceptances_snoc, hc]
    exact ⟨ha ▸ hi.split_recent c, ha ▸ hi.few⟩
  | counted hc hlt =>
    obtain ⟨old, heq, ho⟩ := hi.split_recent c
    have ha : acceptances (l ++ [c]) s = acceptances l s ++ [c.input.time] := by
      simp [acceptances_snoc, hc]
    refine ⟨⟨old, by rw [ha, heq, append_assoc], ho⟩, fun t => ?_⟩
    rw [ha, within, countP_append, countP_singleton]
    by_cases hin : t ≤ c.input.time ∧ c.input.time ≤ t + rateLimitWindowMs
    · -- an old time is in no window that the time of the call is in
      have hn : within t (t + rateLimitWindowMs) old = 0 := by
        refine countP_eq_zero.mpr fun x hx => ?_
        obtain ⟨c', hc', hgt⟩ := ho x hx
        have hle : c'.input.time ≤ c.input.time := by
          rcases mem_append.mp hc' with hc' | hc'
          · exact hcl c' hc'
          · rw [mem_singleton.mp hc']
        rw [decide_eq_true_iff]
        omega
      rw [if_pos (decide_eq_true hin), heq, countP_append]
      have hle := countP_le_length (p := fun x => decide (t ≤ x ∧ x ≤ t + rateLimitWindowMs))
        (l := recent c.input.time rateLimitWindowMs q)
      unfold within at hn
      omega
    · rw [if_neg (by simpa using hin)]
      exact hi.few t

theorem ClockOf.of_append {l' : List LimitCall} (h : ClockOf (l ++ l')) :
    ClockOf l ∧ ∀ c ∈ l', ∀ c' ∈ l, c'.input.time ≤ c.input.time := by
  rw [ClockOf, map_append, pairwise_append] at h
  exact ⟨h.1, fun c hc c' hc' => h.2.2 _ (mem_map_of_mem hc') _ (mem_map_of_mem hc)⟩

theorem queueInv_run (h : MachineRun limitNext .new l net) (hcl : ClockOf l) (s : Hotkey) :
    QueueInv s l (net.queue s) := by
  refine Run.logInvariant (P := fun l net => ClockOf l → QueueInv s l (net.queue s)) ?_ ?_ h hcl
  · exact fun _ => ⟨⟨[], rfl, fun t ht => nomatch ht⟩, fun _ => Nat.zero_le _⟩
  · intro l net c net' _ hP hst hcl'
    exact (hP hcl'.of_append.1).step (queueStep hst s) (hcl'.of_append.2 c mem_cons_self)

end

/-- **The rate limit is a sliding window**, in every run in which the clock does not go back: every
closed window of a second has at most 100 accepted messages of a signer, wherever it begins, and a
message is rejected only when 100 were accepted in the second before it. -/
theorem sliding_window (l : List LimitCall) (net : P2PNetwork) (h : MachineRun limitNext .new l net)
    (hclock : ClockOf l) (s : Hotkey) :
    (∀ t, within t (t + rateLimitWindowMs) (acceptances l s) ≤ rateLimit) ∧
    ∀ l₁ c l₂ now, l = l₁ ++ c :: l₂ → c.input = .check s now → c.out ≠ .ok () →
      rateLimit ≤ within (now - rateLimitWindowMs) now (acceptances l₁ s) := by
  refine ⟨(queueInv_run h hclock s).few, ?_⟩
  rintro l₁ c l₂ now rfl hin ho
  obtain ⟨net₁, hrun, hr⟩ := Run.split h
  obtain ⟨net₂, hst, -⟩ := Run.head hr
  obtain ⟨hc₁, hle⟩ := hclock.of_append
  have hfl : rateLimit ≤ (recent now rateLimitWindowMs (net₁.queue s)).length := by
    by_contra hfw
    refine ho (hst.out_eq.trans ?_)
    rw [hin, limitNext, checkRateLimit, if_neg hfw]
  obtain ⟨old, heq, -⟩ := (queueInv_run hrun hc₁ s).split
  have htm : (net₁.queue s).Sublist (l₁.map fun c => c.input.time) :=
    (heq ▸ sublist_append_right _ _).trans (filter_sublist.map _)
  rw [recent_eq_filter (hc₁.sublist htm), ← countP_eq_length_filter] at hfl
  rw [heq, within, countP_append]
  refine hfl.trans (le_add_left (countP_mono_left fun x hx hwn => ?_))
  obtain ⟨c', hc', rfl⟩ := mem_map.mp (htm.subset hx)
  have hbf := hle c mem_cons_self c' hc'
  rw [hin] at hbf
  rw [decide_eq_true_iff] at hwn ⊢
  exact ⟨by omega, hbf⟩

/-- two messages, and a cleaning between them -/
def sampleLimitRun : List LimitCall × P2PNetwork :=
  trace limitNext .new [.check (.ofByte 1) 0, .clean 900, .check (.ofByte 1) 1000]

theorem sliding_window_two :
    within 0 1000 (acceptances sampleLimitRun.1 (.ofByte 1)) = 2 ∧
    ∀ t, within t (t + rateLimitWindowMs) (acceptances sampleLimitRun.1 (.ofByte 1)) ≤ rateLimit :=
  ⟨by decide +kernel, (sliding_window _ _ (machineRun_trace _ _ _)
    (by unfold ClockOf; decide +kernel) _).1⟩

end Platform.Network
