import Mathlib.Data.Prod.Lex
import Platform.Lib.MaxBy
import Platform.Storage.Store

/-!
# Replication (`replication.rs`)

How many nodes hold a value, and which one of several values is taken.
-/

namespace Platform.Storage
open Platform.Core Lib

/-- the fields that decide how many nodes take part -/
structure ReplicationConfig where
  replicationFactor : Nat
  writeQuorum : Nat
  readQuorum : Nat
deriving DecidableEq

namespace ReplicationConfig

def default : ReplicationConfig := ⟨3, 2, 2⟩

def validate (config : ReplicationConfig) : Except String Unit :=
  if config.replicationFactor < config.writeQuorum then
    .error ("Write quorum (" ++ toString config.writeQuorum ++
      ") cannot exceed replication factor (" ++ toString config.replicationFactor ++ ")")
  else if config.replicationFactor < config.readQuorum then
    .error ("Read quorum (" ++ toString config.readQuorum ++
      ") cannot exceed replication factor (" ++ toString config.replicationFactor ++ ")")
  else if config.writeQuorum = 0 then .error "Write quorum must be at least 1"
  else if config.readQuorum = 0 then .error "Read quorum must be at least 1"
  else .ok ()

end ReplicationConfig

inductive ConflictResolution where
  | lastWriteWins
  | highestVersion
  | custom
deriving DecidableEq

namespace ConflictResolver

def resolveLww (values : List StoredValue) : Option StoredValue :=
  maxByKey (fun v => v.metadata.updatedAt.toInt) values

def resolveVersion (values : List StoredValue) : Option StoredValue :=
  maxByKey (fun v => v.metadata.version.toNat) values

def resolve (strategy : ConflictResolution) (values : List StoredValue) : Option StoredValue :=
  match values with
  | [] => none
  | [v] => some v
  | _ =>
    match strategy with
    | .lastWriteWins => resolveLww values
    | .highestVersion => resolveVersion values
    | .custom => resolveLww values

end ConflictResolver

/-- what a strategy looks at -/
def ConflictResolution.key : ConflictResolution → StoredValue → Int
  | .lastWriteWins, v => v.metadata.updatedAt.toInt
  | .highestVersion, v => v.metadata.version.toNat
  | .custom, v => v.metadata.updatedAt.toInt

def ConflictResolution.IsLargest (strategy : ConflictResolution) (values : List StoredValue)
    (v : StoredValue) : Prop := ∀ w ∈ values, strategy.key w ≤ strategy.key v

/-- the comparison that `resolve` makes -/
def ConflictResolution.beats (strategy : ConflictResolution) (a b : StoredValue) : Bool :=
  decide (strategy.key b < strategy.key a)

theorem resolve_eq (strategy : ConflictResolution) (values : List StoredValue) :
    ConflictResolver.resolve strategy values = maxBy strategy.beats values := by
  match values with
  | [] => rfl
  | [v] => rfl
  | v :: w :: rest =>
    cases strategy with
    | lastWriteWins => rfl
    | custom => rfl
    | highestVersion =>
      show maxBy _ (v :: w :: rest) = maxBy _ (v :: w :: rest)
      congr 1
      funext a b
      exact decide_eq_decide.mpr Int.ofNat_lt.symm

/-- **Replicas resolve conflicts alike**, whatever order they see the values in, if and only if no
two of the values share the largest time of update, or the largest version. -/
theorem resolve_order_iff (strategy : ConflictResolution) (values : List StoredValue) :
    (∀ values', values'.Perm values →
      ConflictResolver.resolve strategy values' = ConflictResolver.resolve strategy values) ↔
    ∀ a ∈ values, ∀ b ∈ values, strategy.IsLargest values a → strategy.IsLargest values b →
      a = b := by
  simp only [resolve_eq]
  exact maxBy_perm_iff (fun a b => decide_eq_true_iff) values

/-- Two values written in the same millisecond. -/
theorem resolve_depends_on_order :
    ¬ ∀ (strategy : ConflictResolution) (values : List StoredValue), values.Nodup →
      ∀ values', values'.Perm values →
        ConflictResolver.resolve strategy values' = ConflictResolver.resolve strategy values := by
  intro h
  have hs := h .lastWriteWins
    [.new sampleCrypto 0 [1] (some "a"), .new sampleCrypto 0 [2] (some "b")] (by decide +kernel)
    [.new sampleCrypto 0 [2] (some "b"), .new sampleCrypto 0 [1] (some "a")] (List.Perm.swap _ _ _)
  exact absurd hs (by decide +kernel)

/-! ## the newest value -/

def StoredValue.isNewerThan (v w : StoredValue) : Bool :=
  if v.metadata.version ≠ w.metadata.version then
    decide (w.metadata.version < v.metadata.version)
  else decide (w.metadata.updatedAt < v.metadata.updatedAt)

def StoredValue.stamp (v : StoredValue) : Nat ×ₗ Int :=
  toLex (v.metadata.version.toNat, v.metadata.updatedAt.toInt)

theorem StoredValue.isNewerThan_iff (v w : StoredValue) :
    v.isNewerThan w = true ↔ w.stamp < v.stamp := by
  rw [isNewerThan, stamp, stamp, Prod.Lex.toLex_lt_toLex]
  by_cases hv : v.metadata.version = w.metadata.version
  · rw [if_neg (not_not.mpr hv), decide_eq_true_iff, Int64.lt_iff_toInt_lt, hv]
    exact ⟨fun h => .inr ⟨rfl, h⟩, fun h => h.elim (fun h => absurd h (lt_irrefl _)) (·.2)⟩
  · rw [if_pos hv, decide_eq_true_iff]
    exact ⟨.inl, fun h => h.elim id fun h => absurd (UInt64.toNat_inj.mp h.1).symm hv⟩

/-- the value that a quorum read returns, of those that it has found -/
def newest (values : List StoredValue) : Option StoredValue := maxBy StoredValue.isNewerThan values

end Platform.Storage
