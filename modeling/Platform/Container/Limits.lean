import Mathlib.Data.Rat.Floor
import Platform.Container.Broker
import Platform.Lib.Serde

/-!
# Resource limits of accepted containers

The policy only asks that no limit is above its maximum, and the daemon reads a limit that is not
positive as none at all.
-/

namespace Platform.Container
open Platform.Core Lib SecurityPolicy

/-- `x as i64` -/
def truncate (x : ℚ) : Int64 :=
  .ofInt (max (-2 ^ 63) (min (2 ^ 63 - 1) (if x < 0 then -⌊-x⌋ else ⌊x⌋)))

/-- exact numbers of cores -/
instance : Float64 ℚ where
  ofNat n := n
  lt a b := decide (a < b)
  display q := toString q
  nanos q := truncate (q * 10 ^ 9)

theorem truncate_pos (x : ℚ) : 0 < truncate x ↔ 1 ≤ x := by
  have h : (truncate x).toInt = _ := Int64.toInt_ofInt_of_le (by omega) (by omega)
  rw [Int64.lt_iff_toInt_lt, h, Int64.toInt_zero, ← Int.floor_pos]
  split
  · next hx =>
    have h1 : 0 ≤ ⌊-x⌋ := Int.floor_nonneg.mpr (by linarith)
    have h2 : ⌊x⌋ ≤ 0 := by exact_mod_cast (Int.floor_le x).trans hx.le
    omega
  · omega

theorem truncate_le {x : ℚ} (hx : 1 ≤ x) : ((truncate x).toInt : ℚ) ≤ x := by
  have h : (truncate x).toInt = _ := Int64.toInt_ofInt_of_le (by omega) (by omega)
  have h0 : 0 < ⌊x⌋ := Int.floor_pos.mpr hx
  rw [h, if_neg (by linarith)]
  refine le_trans (Int.cast_le.mpr ?_) (Int.floor_le x)
  omega

/-- The daemon limits the container, and not above the maxima of the policy. -/
structure Limited (p : SecurityPolicy ℚ) (h : HostConfig) : Prop where
  memory : 0 < h.memory ∧ h.memory ≤ p.maxMemoryBytes
  cpus : 0 < h.nanoCpus ∧ (h.nanoCpus.toInt : ℚ) ≤ p.maxCpuCores * 10 ^ 9
  pids : 0 < h.pidsLimit ∧ h.pidsLimit ≤ p.maxPids

theorem validateResources_ok {p : SecurityPolicy ℚ} {r : ResourceLimits ℚ}
    (h : p.validateResources r = .ok ()) :
    r.memoryBytes ≤ p.maxMemoryBytes ∧ r.cpuCores ≤ p.maxCpuCores ∧ r.pidsLimit ≤ p.maxPids := by
  unfold validateResources at h
  split at h
  · cases h
  · next hm =>
    split at h
    · cases h
    · next hc =>
      split at h
      · cases h
      · next hp =>
        exact ⟨Int64.not_lt.mp hm, not_lt.mp fun hlt => hc (decide_eq_true hlt), Int64.not_lt.mp hp⟩

/-- **Accepted resources are limits** if and only if each of them is one for the daemon: a memory
and a number of processes above zero, and a billionth of a core at least. -/
theorem accepted_limits_iff {σ : Type} (cfg : BrokerConfig ℚ) (env : DockerEnv σ)
    (config : ContainerConfig ℚ) (h : cfg.policy.validate cfg.lower config = .ok ()) :
    Limited cfg.policy (dockerConfig cfg env config).hostConfig ↔
      0 < config.resources.memoryBytes ∧ 1 ≤ config.resources.cpuCores * 10 ^ 9 ∧
        0 < config.resources.pidsLimit := by
  obtain ⟨_, -, h⟩ := bind_eq_ok.mp h
  obtain ⟨_, hr, -⟩ := bind_eq_ok.mp h
  obtain ⟨hm, hc, hp⟩ := validateResources_ok hr
  constructor
  · rintro ⟨h1, h2, h3⟩
    exact ⟨h1.1, (truncate_pos _).mp h2.1, h3.1⟩
  · rintro ⟨h1, h2, h3⟩
    refine ⟨⟨h1, hm⟩, ⟨(truncate_pos _).mpr h2, (truncate_le h2).trans ?_⟩, h3, hp⟩
    exact mul_le_mul_of_nonneg_right hc (by norm_num)

def limitsBroker : BrokerConfig ℚ := ⟨.default, "platform-network", "1", id⟩

/-- a container with the given numbers of bytes, cores and processes -/
def limitsConfig (memory : Int64) (cores : ℚ) (pids : Int64) : ContainerConfig ℚ where
  image := "platform-test"
  challengeId := "a"
  ownerId := "o"
  name := none
  cmd := none
  env := ∅
  workingDir := none
  resources := ⟨memory, cores, pids, 0⟩
  network := ⟨.none, ∅, false⟩
  mounts := []
  labels := ∅
  user := none

theorem half_core_limited :
    limitsBroker.policy.validate id (limitsConfig 1 (1 / 2) 1) = .ok () ∧
      ∀ {σ : Type} (env : DockerEnv σ), Limited limitsBroker.policy
        (dockerConfig limitsBroker env (limitsConfig 1 (1 / 2) 1)).hostConfig := by
  refine ⟨by decide +kernel, fun env => ?_⟩
  refine (accepted_limits_iff limitsBroker env _ (by decide +kernel)).mpr ?_
  exact ⟨by decide, by decide +kernel, by decide⟩

/-- All three limits of an accepted container can be read as none. -/
theorem accepted_without_limits :
    limitsBroker.policy.validate id (limitsConfig 0 (1 / 10 ^ 10) (-1)) = .ok () ∧
      ∀ {σ : Type} (env : DockerEnv σ), ¬ Limited limitsBroker.policy
        (dockerConfig limitsBroker env (limitsConfig 0 (1 / 10 ^ 10) (-1))).hostConfig := by
  refine ⟨by decide +kernel, fun env h => ?_⟩
  have h0 : (0 : Int64) < 0 := h.memory.1
  exact absurd h0 (by decide)

end Platform.Container
