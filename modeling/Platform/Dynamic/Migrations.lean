import Platform.Dynamic.Storage
import Platform.Lib.Ladder

/-!
# Migrations (`crates/storage/src/migration.rs`)

A migration runs on the tree of the dynamic storage, up or down.  The runner keeps the current
version and one record for each migration that is applied, in a tree of their own.

* What a migration does is an argument of each call, so that it can fail at any time.  It sees the
  storage tree and the state tree only.
* The clock is read for each record; operations of `sled` do not fail.

The version stays in step with the records as long as no rollback stops half way.
-/

namespace Platform.Dynamic
open Platform.Core Lib List
open scoped Lib.Bytewise

/-! ## the order of versions -/

instance versionOrder : LinearOrder UInt64 where
  le_refl := UInt64.le_refl
  le_trans _ _ _ := UInt64.le_trans
  lt_iff_le_not_ge := Std.LawfulOrderLT.lt_iff
  le_antisymm _ _ := UInt64.le_antisymm
  le_total := UInt64.le_total
  toDecidableLE := inferInstance

instance versionBot : OrderBot UInt64 where
  bot := 0
  bot_le _ := UInt64.le_iff_toNat_le.mpr (Nat.zero_le _)

/-! ## the context of a migration -/

inductive MigrationError where
  | storage (msg : String)
  | serialization (msg : String)
  | failed (msg : String)
deriving DecidableEq

structure MigrationChange where
  key : StorageKey
  oldValue : Option StorageValue
  newValue : Option StorageValue

structure MigrationContext where
  storageTree : OrdMap Bytes Bytes
  stateTree : OrdMap Bytes Bytes
  blockHeight : UInt64
  changes : List MigrationChange

namespace MigrationContext

def new (storageTree stateTree : OrdMap Bytes Bytes) (blockHeight : UInt64) : MigrationContext :=
  ⟨storageTree, stateTree, blockHeight, []⟩

def get (ctx : MigrationContext) (key : StorageKey) :
    Except MigrationError (Option StorageValue) :=
  match ctx.storageTree.get key.toBytes with
  | none => .ok none
  | some data =>
    ((valueLayout.deserialize data).map some).mapError fun err => .serialization err.display

def set (ctx : MigrationContext) (key : StorageKey) (value : StorageValue) :
    Except MigrationError Unit × MigrationContext :=
  match ctx.get key with
  | .error err => (.error err, ctx)
  | .ok oldValue =>
    (.ok (),
      { ctx with
        storageTree := ctx.storageTree.insert key.toBytes (valueLayout.ser value)
        changes := ctx.changes ++ [⟨key, oldValue, some value⟩] })

def delete (ctx : MigrationContext) (key : StorageKey) :
    Except MigrationError (Option StorageValue) × MigrationContext :=
  match ctx.get key with
  | .error err => (.error err, ctx)
  | .ok oldValue =>
    (.ok oldValue,
      { ctx with
        storageTree := ctx.storageTree.erase key.toBytes
        changes :=
          if oldValue.isSome then ctx.changes ++ [⟨key, oldValue, none⟩] else ctx.changes })

/-- several calls of `set`, up to the first that fails -/
def setAll (ctx : MigrationContext) :
    List (StorageKey × StorageValue) → Except MigrationError Unit × MigrationContext
  | [] => (.ok (), ctx)
  | (key, value) :: rest =>
    match ctx.set key value with
    | (.error err, ctx) => (.error err, ctx)
    | (.ok _, ctx) => ctx.setAll rest

/-- several calls of `delete`, up to the first that fails -/
def deleteAll (ctx : MigrationContext) :
    List StorageKey → Except MigrationError Unit × MigrationContext
  | [] => (.ok (), ctx)
  | key :: rest =>
    match ctx.delete key with
    | (.error err, ctx) => (.error err, ctx)
    | (.ok _, ctx) => ctx.deleteAll rest

end MigrationContext

/-! ## migrations -/

structure Migration where
  name : String
  reversible : Bool

abbrev Behaviour :=
  UInt64 → Direction → MigrationContext → Except MigrationError Unit × MigrationContext

variable (C : Crypto) (ms : OrdMap UInt64 Migration) (v : UInt64)

def register (version : UInt64) (m : Migration) : OrdMap UInt64 Migration :=
  if (ms.get version).isSome then ms else ms.insert version m

/-- `InitialMigration` and `AddChallengeMetricsMigration`, as `Storage::run_migrations` registers
them -/
def builtin : OrdMap UInt64 Migration :=
  register (register ∅ 1 ⟨"initial_setup", false⟩) 2 ⟨"add_challenge_metrics", true⟩

/-- `up` and `down` of the migrations above; the default `down` fails -/
def builtinBehaviour (now : SystemTime) : Behaviour
  | 1, .up, ctx =>
    ctx.setAll
      [(.system "schema_version", .u64 1),
        (.system "created_at", .u64 (.ofNat (now.nanos / 10 ^ 9))),
        (.system "total_challenges", .u64 0),
        (.system "total_validators", .u64 0),
        (.system "total_jobs", .u64 0)]
  | 2, .up, ctx =>
    ctx.setAll
      [(.system "metrics_enabled", .bool true),
        (.system "metrics_retention_secs", .u64 (7 * 24 * 60 * 60))]
  | 2, .down, ctx =>
    ctx.deleteAll [.system "metrics_enabled", .system "metrics_retention_secs"]
  | _, _, ctx => (.error (.storage "Rollback not supported"), ctx)

structure MigrationRecord where
  version : UInt64
  name : String
  appliedAt : SystemTime
  blockHeight : UInt64
  checksum : Bytes32

section
open BinCodec

def recordLayout : BinCodec MigrationRecord :=
  iso (pair u64 (pair string (pair timeLayout (pair u64 Platform.Chain.Layout.bytes32))))
    (fun r => (r.version, r.name, r.appliedAt, r.blockHeight, r.checksum))
    fun (v, n, t, h, c) => ⟨v, n, t, h, c⟩

end

def calculateChecksum (changes : List MigrationChange) : Bytes32 :=
  C.sha256 (changes.flatMap fun c =>
    c.key.toBytes ++ (c.oldValue.map valueLayout.ser).getD [] ++
      (c.newValue.map valueLayout.ser).getD [])

/-! ## the trees -/

structure MigrationDb where
  migrationsTree : OrdMap Bytes Bytes
  storageTree : OrdMap Bytes Bytes
  stateTree : OrdMap Bytes Bytes

def versionKey : Bytes := utf8 "current_version"

def appliedKey (version : UInt64) : Bytes := utf8 ("applied:" ++ version.toNat.repr)

namespace MigrationDb

/-- no migration has run yet -/
def fresh (storageTree stateTree : OrdMap Bytes Bytes) : MigrationDb :=
  ⟨∅, storageTree, stateTree⟩

variable (db : MigrationDb)

def currentVersion : Except MigrationError UInt64 :=
  match db.migrationsTree.get versionKey with
  | some data => (BinCodec.u64.deserialize data).mapError fun err => .serialization err.display
  | none => .ok 0

def setCurrentVersion (version : UInt64) : MigrationDb :=
  { db with migrationsTree := db.migrationsTree.insert versionKey (BinCodec.u64.ser version) }

def isApplied (version : UInt64) : Bool :=
  (db.migrationsTree.get (appliedKey version)).isSome

def recordApplied (record : MigrationRecord) : MigrationDb :=
  { db with
    migrationsTree := db.migrationsTree.insert (appliedKey record.version)
      (recordLayout.ser record) }

def removeApplied (version : UInt64) : MigrationDb :=
  { db with migrationsTree := db.migrationsTree.erase (appliedKey version) }

def context (blockHeight : UInt64) : MigrationContext :=
  .new db.storageTree db.stateTree blockHeight

def leave (ctx : MigrationContext) : MigrationDb :=
  { db with storageTree := ctx.storageTree, stateTree := ctx.stateTree }

def pendingMigrations (ms : OrdMap UInt64 Migration) : Except MigrationError (List UInt64) :=
  db.currentVersion.map fun current => ms.keys.filter fun v => current < v

end MigrationDb

/-! ## the runner -/

/-- the versions that went up or down, and the error that stopped the rest -/
structure Ran where
  done : List UInt64
  error : Option MigrationError

namespace Ran

/-- what the call returns -/
def result (r : Ran) : Except MigrationError (List UInt64) :=
  match r.error with
  | none => .ok r.done
  | some err => .error err

def cons (version : UInt64) (r : Ran) : Ran := { r with done := version :: r.done }

end Ran

/-- the loop of `run_pending` -/
def upLoop (C : Crypto) (ms : OrdMap UInt64 Migration) (clock : UInt64 → SystemTime)
    (blockHeight : UInt64) (exec : Behaviour) : List UInt64 → MigrationDb → Ran × MigrationDb
  | [], db => (⟨[], none⟩, db)
  | version :: rest, db =>
    match ms.get version with
    | none => upLoop C ms clock blockHeight exec rest db
    | some m =>
      match exec version .up (db.context blockHeight) with
      | (.error err, ctx) => (⟨[], some err⟩, db.leave ctx)
      | (.ok _, ctx) =>
        let record : MigrationRecord :=
          ⟨version, m.name, clock version, blockHeight, calculateChecksum C ctx.changes⟩
        Prod.map (Ran.cons version) id (upLoop C ms clock blockHeight exec rest
          (((db.leave ctx).recordApplied record).setCurrentVersion version))

def runPending (clock : UInt64 → SystemTime) (blockHeight : UInt64) (exec : Behaviour)
    (db : MigrationDb) : Ran × MigrationDb :=
  match db.pendingMigrations ms with
  | .error err => (⟨[], some err⟩, db)
  | .ok pending => upLoop C ms clock blockHeight exec pending db

/-- `Storage::run_migrations`, on the tree of the dynamic storage -/
def runMigrations (clock : UInt64 → SystemTime) (blockHeight : UInt64) (now : SystemTime)
    (db : MigrationDb) : Ran × MigrationDb :=
  runPending C builtin clock blockHeight (builtinBehaviour now) db

/-- the loop of `rollback_to` -/
def downLoop (ms : OrdMap UInt64 Migration) (blockHeight : UInt64) (exec : Behaviour) :
    List UInt64 → MigrationDb → Ran × MigrationDb
  | [], db => (⟨[], none⟩, db)
  | version :: rest, db =>
    match ms.get version with
    | none => downLoop ms blockHeight exec rest db
    | some m =>
      if m.reversible then
        match exec version .down (db.context blockHeight) with
        | (.error err, ctx) => (⟨[], some err⟩, db.leave ctx)
        | (.ok _, ctx) =>
          Prod.map (Ran.cons version) id
            (downLoop ms blockHeight exec rest ((db.leave ctx).removeApplied version))
      else
        (⟨[], some (.storage ("Migration " ++ version.toNat.repr ++ " is not reversible"))⟩, db)

def versionsDown (target current : UInt64) : List UInt64 :=
  (range (current.toNat - target.toNat)).map fun i => .ofNat (current.toNat - i)

def rollbackTo (target blockHeight : UInt64) (exec : Behaviour) (db : MigrationDb) :
    Ran × MigrationDb :=
  match db.currentVersion with
  | .error err => (⟨[], some err⟩, db)
  | .ok current =>
    if current ≤ target then
      (⟨[], some (.storage ("Cannot rollback to version " ++ target.toNat.repr ++
        " (current is " ++ current.toNat.repr ++ ")"))⟩, db)
    else
      match downLoop ms blockHeight exec (versionsDown target current) db with
      | (⟨done, some err⟩, db) => (⟨done, some err⟩, db)
      | (⟨done, none⟩, db) => (⟨done, none⟩, db.setCurrentVersion target)

/-! ## runs -/

inductive MigrationOp where
  | runPending (clock : UInt64 → SystemTime) (blockHeight : UInt64) (exec : Behaviour)
  | rollbackTo (target blockHeight : UInt64) (exec : Behaviour)

def MigrationOp.direction : MigrationOp → Direction
  | runPending .. => .up
  | rollbackTo .. => .down

def migrationNext (db : MigrationDb) :
    MigrationOp → Ran × MigrationDb
  | .runPending clock blockHeight exec => runPending C ms clock blockHeight exec db
  | .rollbackTo target blockHeight exec => rollbackTo ms target blockHeight exec db

abbrev MigrationCall := Call MigrationDb MigrationOp Ran

/-- what a call did to a version, successfully -/
def executionsIn (c : MigrationCall) : List Direction :=
  (c.out.done.filter (· = v)).map fun _ => c.input.direction

/-- the successful executions of a version -/
def executions (log : List MigrationCall) : List Direction :=
  log.flatMap (executionsIn v)

def Registered : Prop := (ms.get v).isSome = true

/-- **In step**: each version goes up and down in turn, is recorded when it went up last, and the
versions that are recorded are the registered ones not above the current version. -/
structure InStep (log : List MigrationCall) (db : MigrationDb) : Prop where
  alternates : ∀ v, Alternates (executions v log)
  last : ∀ v, db.isApplied v = true ↔ (executions v log).getLast? = some .up
  current : ∃ current, db.currentVersion = .ok current ∧
    ∀ v, db.isApplied v = true ↔ Registered ms v ∧ v ≤ current

/-- The call is a rollback that failed after it rolled something back. -/
def CutShort (c : MigrationCall) : Prop :=
  c.input.direction = .down ∧ c.out.done ≠ [] ∧ c.out.error ≠ none

instance (c : MigrationCall) : Decidable (CutShort c) :=
  inferInstanceAs (Decidable (_ ∧ _ ∧ _))

/-! ## what the functions on trees do -/

theorem versionKey_ne : versionKey ≠ appliedKey v := by
  intro h
  have hh : some (99 : UInt8) = some 97 := congrArg head? h
  exact absurd hh (by decide)

theorem appliedKey_inj {v v' : UInt64} (h : appliedKey v = appliedKey v') : v = v' := by
  have hrp : v.toNat.repr = v'.toNat.repr := by
    have hby := h
    exact utf8_inj (append_cancel_left hby)
  exact UInt64.toNat_inj.mp (Nat.repr_inj.mp hrp)

section
variable {db : MigrationDb} {v version : UInt64}

theorem currentVersion_setCurrentVersion :
    (db.setCurrentVersion version).currentVersion = .ok version := by
  unfold MigrationDb.currentVersion MigrationDb.setCurrentVersion
  rw [OrdMap.get_insert_self]
  show Except.mapError _ _ = _
  rw [BinCodec.lawful_u64.deserialize (by rw [BinCodec.length_ser_u64]; decide)]
  rfl

theorem isApplied_setCurrentVersion :
    (db.setCurrentVersion version).isApplied v = db.isApplied v := by
  unfold MigrationDb.isApplied MigrationDb.setCurrentVersion
  rw [OrdMap.get_insert_of_ne _ (versionKey_ne v).symm]

theorem isApplied_recordApplied (r : MigrationRecord) :
    (db.recordApplied r).isApplied v = true ↔ v = r.version ∨ db.isApplied v = true := by
  unfold MigrationDb.isApplied MigrationDb.recordApplied
  by_cases h : v = r.version
  · rw [h, OrdMap.get_insert_self]
    exact iff_of_true rfl (.inl rfl)
  · rw [OrdMap.get_insert_of_ne _ fun hk => h (appliedKey_inj hk)]
    exact (or_iff_right h).symm

theorem currentVersion_removeApplied :
    (db.removeApplied version).currentVersion = db.currentVersion := by
  unfold MigrationDb.currentVersion MigrationDb.removeApplied
  rw [OrdMap.get_erase_of_ne _ (versionKey_ne _)]

theorem isApplied_removeApplied :
    (db.removeApplied version).isApplied v = true ↔ db.isApplied v = true ∧ v ≠ version := by
  unfold MigrationDb.isApplied MigrationDb.removeApplied
  by_cases h : v = version
  · rw [h, OrdMap.get_erase_self]
    exact iff_of_false (by decide) fun ha => ha.2 rfl
  · rw [OrdMap.get_erase_of_ne _ fun hk => h (appliedKey_inj hk)]
    exact (and_iff_left h).symm

end

/-! ## what the loops do -/

section
variable {C : Crypto} {ms : OrdMap UInt64 Migration} {bh : UInt64} {exec : Behaviour}
  {clk : UInt64 → SystemTime} {vs : List UInt64} {db db' : MigrationDb}

structure WentUp (vs : List UInt64) (db : MigrationDb) (r : Ran × MigrationDb) : Prop where
  done : r.1.done <+: vs
  current : ∀ {current}, db.currentVersion = .ok current →
    r.2.currentVersion = .ok (r.1.done.getLast?.getD current)
  applied : ∀ v, r.2.isApplied v = true ↔ db.isApplied v = true ∨ v ∈ r.1.done

theorem WentUp.nothing (ctx : MigrationContext) {err : Option MigrationError} :
    WentUp vs db (⟨[], err⟩, db.leave ctx) where
  done := nil_prefix
  current h := h
  applied _ := (or_iff_left not_mem_nil).symm

theorem WentUp.cons (rd : MigrationRecord) {ctx : MigrationContext} {r : Ran × MigrationDb}
    (h : WentUp vs (((db.leave ctx).recordApplied rd).setCurrentVersion rd.version) r) :
    WentUp (rd.version :: vs) db (Prod.map (Ran.cons rd.version) id r) := by
  refine ⟨?_, ?_, ?_⟩
  · exact cons_prefix_cons.mpr ⟨rfl, h.done⟩
  · intro current _
    show r.2.currentVersion = .ok ((rd.version :: r.1.done).getLast?.getD current)
    rw [h.current currentVersion_setCurrentVersion, getLast?_cons]
    rfl
  · intro v
    show r.2.isApplied v = true ↔ db.isApplied v = true ∨ v ∈ rd.version :: r.1.done
    rw [h.applied, isApplied_setCurrentVersion, isApplied_recordApplied, mem_cons]
    exact or_assoc.trans or_left_comm

theorem wentUp_upLoop (hrg : ∀ v ∈ vs, Registered ms v) :
    WentUp vs db (upLoop C ms clk bh exec vs db) := by
  induction vs generalizing db with
  | nil => exact WentUp.nothing (db.context 0)
  | cons version vs ih =>
    obtain ⟨m, hm⟩ := Option.isSome_iff_exists.mp (hrg version mem_cons_self)
    rcases hex : exec version .up (db.context bh) with ⟨_ | _, ctx⟩
    · rw [upLoop, hm]
      simp only [hex]
      exact WentUp.nothing ctx
    · rw [upLoop, hm]
      simp only [hex]
      exact WentUp.cons ⟨version, _, _, _, _⟩ (ih fun v hv => hrg v (mem_cons_of_mem _ hv))

/-- The registered versions went down, all of them or those before the one that failed. -/
structure WentDown (ms : OrdMap UInt64 Migration) (vs : List UInt64) (db : MigrationDb)
    (r : Ran × MigrationDb) : Prop where
  whole : r.1.error = none → r.1.done = vs.filter fun v => (ms.get v).isSome
  part : r.1.error ≠ none → ∃ l₁ f l₂, vs = l₁ ++ f :: l₂ ∧
    r.1.done = l₁.filter fun v => (ms.get v).isSome
  current : r.2.currentVersion = db.currentVersion
  applied : ∀ v, r.2.isApplied v = true ↔ db.isApplied v = true ∧ v ∉ r.1.done

theorem WentDown.failed {version : UInt64} {err : MigrationError}
    (hcurrent : db'.currentVersion = db.currentVersion)
    (ha : ∀ v, db'.isApplied v = db.isApplied v) :
    WentDown ms (version :: vs) db (⟨[], some err⟩, db') where
  whole h := nomatch h
  part _ := ⟨[], version, vs, rfl, rfl⟩
  current := hcurrent
  applied v := by
    rw [ha]
    exact (and_iff_left not_mem_nil).symm

theorem WentDown.skip {version : UInt64} {r : Ran × MigrationDb} (hm : ms.get version = none)
    (h : WentDown ms vs db r) : WentDown ms (version :: vs) db r where
  whole her := by
    rw [h.whole her, filter_cons_of_neg (by simp [hm])]
  part her := by
    obtain ⟨l₁, f, l₂, hvs, hdn⟩ := h.part her
    refine ⟨version :: l₁, f, l₂, by rw [hvs]; rfl, ?_⟩
    rw [hdn, filter_cons_of_neg (by simp [hm])]
  current := h.current
  applied := h.applied

theorem WentDown.cons {version : UInt64} {ctx : MigrationContext} {r : Ran × MigrationDb}
    (hm : (ms.get version).isSome = true)
    (h : WentDown ms vs ((db.leave ctx).removeApplied version) r) :
    WentDown ms (version :: vs) db (Prod.map (Ran.cons version) id r) where
  whole her := by
    rw [filter_cons_of_pos (p := fun v => (ms.get v).isSome) hm, ← h.whole her]
    rfl
  part her := by
    obtain ⟨l₁, f, l₂, hvs, hdn⟩ := h.part her
    refine ⟨version :: l₁, f, l₂, by rw [hvs]; rfl, ?_⟩
    rw [filter_cons_of_pos (p := fun v => (ms.get v).isSome) hm, ← hdn]
    rfl
  current := h.current.trans currentVersion_removeApplied
  applied v := by
    show r.2.isApplied v = true ↔ db.isApplied v = true ∧ v ∉ version :: r.1.done
    rw [h.applied, isApplied_removeApplied, mem_cons, not_or, and_assoc]
    exact Iff.rfl

theorem wentDown_downLoop : WentDown ms vs db (downLoop ms bh exec vs db) := by
  induction vs generalizing db with
  | nil =>
    exact ⟨fun _ => rfl, fun h => absurd rfl h, rfl, fun _ => (and_iff_left not_mem_nil).symm⟩
  | cons version vs ih =>
    cases hm : ms.get version with
    | none =>
      rw [downLoop, hm]
      exact ih.skip hm
    | some m =>
      cases hrv : m.reversible with
      | false =>
        rw [downLoop, hm]
        simp only [hrv]
        exact WentDown.failed rfl fun _ => rfl
      | true =>
        rcases hex : exec version .down (db.context bh) with ⟨_ | _, ctx⟩
        · rw [downLoop, hm]
          simp only [hrv, hex, if_true]
          exact WentDown.failed rfl fun _ => rfl
        · rw [downLoop, hm]
          simp only [hrv, hex, if_true]
          exact WentDown.cons (by rw [hm]; rfl) ih

end

/-! ## versions in order -/

theorem mem_versionsDown {tgt current v : UInt64} :
    v ∈ versionsDown tgt current ↔ tgt < v ∧ v ≤ current := by
  rw [versionsDown, mem_map, UInt64.lt_iff_toNat_lt, UInt64.le_iff_toNat_le]
  have hlt : current.toNat < UInt64.size := current.toNat_lt
  constructor
  · rintro ⟨i, hi, rfl⟩
    rw [mem_range] at hi
    rw [UInt64.toNat_ofNat_of_lt' (by omega)]
    omega
  · intro ⟨hlw, hh⟩
    refine ⟨current.toNat - v.toNat, mem_range.mpr (by omega), ?_⟩
    rw [Nat.sub_sub_self hh, UInt64.ofNat_toNat]

theorem versionsDown_sorted (tgt current : UInt64) :
    (versionsDown tgt current).Pairwise (· > ·) := by
  rw [versionsDown, pairwise_map]
  refine List.Pairwise.imp_of_mem ?_ pairwise_lt_range
  intro i j hi hj hij
  rw [mem_range] at hi hj
  have hlt : current.toNat < UInt64.size := current.toNat_lt
  rw [gt_iff_lt, UInt64.lt_iff_toNat_lt, UInt64.toNat_ofNat_of_lt' (by omega),
    UInt64.toNat_ofNat_of_lt' (by omega)]
  omega

/-! ## a run of the runner is a run of a ladder -/

def ladder (log : List MigrationCall) (db : MigrationDb) : Ladder UInt64 where
  current := db.currentVersion.toOption.getD 0
  applied v := db.isApplied v = true
  history v := executions v log

section
variable {C : Crypto} {ms : OrdMap UInt64 Migration} {log : List MigrationCall} {c : MigrationCall}
  {db db' : MigrationDb} {a b current v : UInt64}

theorem executions_snoc : executions v (log ++ [c]) = executions v log ++ executionsIn v c := by
  rw [executions, flatMap_append, flatMap_singleton]
  rfl

theorem executionsIn_of_mem (hnd : c.out.done.Nodup) (hv : v ∈ c.out.done) :
    executionsIn v c = [c.input.direction] := by
  rw [executionsIn, filter_eq, count_eq_one_of_mem hnd hv]
  rfl

theorem executionsIn_of_notMem (hv : v ∉ c.out.done) : executionsIn v c = [] := by
  rw [executionsIn, filter_eq, count_eq_zero_of_not_mem hv]
  rfl

theorem ladder_current (h : db.currentVersion = .ok current) :
    (ladder log db).current = current := by
  unfold ladder
  rw [h]
  rfl

theorem stepped_of_done (log : List MigrationCall) (hnd : c.out.done.Nodup)
    (hdn : ∀ v, v ∈ c.out.done ↔ Between (Registered ms) a b v)
    (ha : ∀ v, db'.isApplied v = true ↔
      if c.input.direction = .up then db.isApplied v = true ∨ v ∈ c.out.done
      else db.isApplied v = true ∧ v ∉ c.out.done) :
    Stepped (Registered ms) c.input.direction a b (ladder log db) (ladder (log ++ [c]) db') where
  applied v := by
    rw [← hdn]
    exact ha v
  touched hv := by
    show executions _ (log ++ [c]) = executions _ log ++ _
    rw [executions_snoc, executionsIn_of_mem hnd ((hdn _).mpr hv)]
  other hv := by
    show executions _ (log ++ [c]) = executions _ log
    rw [executions_snoc, executionsIn_of_notMem fun hm => hv ((hdn _).mp hm), append_nil]

theorem mem_pending : v ∈ ms.keys.filter (fun v => decide (current < v)) ↔
    Registered ms v ∧ current < v := by
  rw [mem_filter, OrdMap.mem_keys, decide_eq_true_iff]
  rfl

def MovesLadder (ms : OrdMap UInt64 Migration) (log : List MigrationCall) (db : MigrationDb)
    (c : MigrationCall) (db' : MigrationDb) : Prop :=
  (∃ current', db'.currentVersion = .ok current') ∧
    ∃ m, Moves (Registered ms) (ladder log db) m (ladder (log ++ [c]) db') ∧
      (m.CutShort ↔ CutShort c)

variable (hc : db.currentVersion = .ok current) (hd : c.input.direction = .down)

include hc in
/-- `run_pending` climbs. -/
theorem climbs_of_wentUp (hd : c.input.direction = .up)
    (h : WentUp (ms.keys.filter fun v => current < v) db (c.out, db')) :
    MovesLadder ms log db c db' := by
  have hnx := h.current hc
  refine ⟨⟨_, hnx⟩, .climb, ?_, ?_⟩
  · obtain ⟨rest, hsp⟩ := h.done
    have hs : (c.out.done ++ rest).Pairwise (· < ·) := by
      rw [hsp]
      exact ms.keys_sorted.filter _
    have hdn : ∀ v, v ∈ c.out.done ↔
        Between (Registered ms) current (c.out.done.getLast?.getD current) v := by
      intro v
      cases hls : c.out.done.getLast? with
      | none =>
        rw [getLast?_eq_none_iff.mp hls]
        exact iff_of_false not_mem_nil fun hv => absurd hv.2.1 (not_lt.mpr hv.2.2)
      | some b =>
        rw [mem_iff_le_last hs hls, hsp, mem_pending, and_assoc]
        rfl
    have hle : current ≤ c.out.done.getLast?.getD current := by
      cases hls : c.out.done.getLast? with
      | none => exact le_refl _
      | some b =>
        have hb := (hdn b).mp (mem_of_getLast? hls)
        exact hb.2.1.le
    have hnd : c.out.done.Nodup := (pairwise_append.mp hs).1.imp fun hlt => hlt.ne
    have hse := stepped_of_done log hnd hdn (fun v => by
      rw [if_pos hd]
      exact h.applied v)
    rw [hd] at hse
    refine .climb ?_ ?_
    · rw [ladder_current hc, ladder_current hnx]
      exact hle
    · rw [ladder_current hc, ladder_current hnx]
      exact hse
  · refine iff_of_false (fun h => h) ?_
    intro hct
    exact absurd (hd.symm.trans hct.1) (by decide)

include hc in
theorem stops_of_done (hs : db'.currentVersion = db.currentVersion)
    (hd : c.input.direction = .down) (her : c.out.error ≠ none)
    (hnd : c.out.done.Nodup) (hdn : ∀ v, v ∈ c.out.done ↔ Between (Registered ms) b current v)
    (ha : ∀ v, db'.isApplied v = true ↔ db.isApplied v = true ∧ v ∉ c.out.done) :
    MovesLadder ms log db c db' := by
  have hld : (ladder (log ++ [c]) db').current = (ladder log db).current := by
    rw [ladder_current hc, ladder_current (hs.trans hc)]
  have hsp := stepped_of_done log hnd hdn (fun v => by
    rw [if_neg (by rw [hd]; decide)]
    exact ha v)
  rw [hd] at hsp
  refine ⟨⟨_, hs.trans hc⟩, _, .stop b hld ?_, ?_⟩
  · rw [ladder_current hc]
    exact hsp
  · rw [ladder_current hc]
    constructor
    · intro ⟨v, hv⟩
      exact ⟨hd, ne_nil_of_mem ((hdn v).mpr hv), her⟩
    · intro ⟨_, hne, _⟩
      obtain ⟨v, hv⟩ := exists_mem_of_ne_nil _ hne
      exact ⟨v, (hdn v).mp hv⟩

section
include hc hd

theorem stops_of_wentDown {tgt : UInt64} (her : c.out.error ≠ none)
    (h : WentDown ms (versionsDown tgt current) db (c.out, db')) :
    MovesLadder ms log db c db' := by
  obtain ⟨l₁, f, l₂, hsp, hls⟩ := h.part her
  have hs := versionsDown_sorted tgt current
  have hf : f ∈ versionsDown tgt current := by
    rw [hsp]
    exact mem_append_right _ mem_cons_self
  rw [hsp] at hs
  refine stops_of_done (b := f) hc h.current hd her ?_ ?_ h.applied
  · rw [hls]
    exact ((pairwise_append.mp hs).1.filter _).imp fun hgt => hgt.ne'
  · intro v
    rw [hls, mem_filter, mem_iff_lt_stop hs, ← hsp, mem_versionsDown]
    constructor
    · intro ⟨⟨hv, hlt⟩, hrg⟩
      exact ⟨hrg, hlt, hv.2⟩
    · intro ⟨hrg, hlt, hle⟩
      exact ⟨⟨⟨(mem_versionsDown.mp hf).1.trans hlt, hle⟩, hlt⟩, hrg⟩

theorem descends_of_wentDown {target : UInt64} {db₁ : MigrationDb} (her : c.out.error = none)
    (htr : target ≤ current) (h : WentDown ms (versionsDown target current) db (c.out, db₁)) :
    MovesLadder ms log db c (db₁.setCurrentVersion target) := by
  have hls : c.out.done = (versionsDown target current).filter fun v => (ms.get v).isSome :=
    h.whole her
  have hdn : ∀ v, v ∈ c.out.done ↔ Between (Registered ms) target current v := by
    intro v
    rw [hls, mem_filter, mem_versionsDown]
    exact and_comm
  have hnd : c.out.done.Nodup := by
    rw [hls]
    exact ((versionsDown_sorted target current).filter _).imp fun hgt => hgt.ne'
  have hnx : (db₁.setCurrentVersion target).currentVersion = .ok target :=
    currentVersion_setCurrentVersion
  have ha : ∀ v, (db₁.setCurrentVersion target).isApplied v = true ↔
      if c.input.direction = .up then db.isApplied v = true ∨ v ∈ c.out.done
      else db.isApplied v = true ∧ v ∉ c.out.done := by
    intro v
    rw [if_neg (by rw [hd]; decide), isApplied_setCurrentVersion]
    exact h.applied v
  have hsp := stepped_of_done log hnd hdn ha
  rw [hd] at hsp
  refine ⟨⟨_, hnx⟩, .descend, .descend ?_ ?_, iff_of_false (fun hct => hct) ?_⟩
  · rw [ladder_current hc, ladder_current hnx]
    exact htr
  · rw [ladder_current hc, ladder_current hnx]
    exact hsp
  · exact fun hct => hct.2.2 her

/-- `rollback_to` goes down, or stops on the way. -/
theorem movesLadder_of_rollback {tgt blockHeight : UInt64} {exec : Behaviour}
    (hnx : (c.out, db') = rollbackTo ms tgt blockHeight exec db) :
    MovesLadder ms log db c db' := by
  unfold rollbackTo at hnx
  simp only [hc] at hnx
  have hlp : WentDown ms (versionsDown tgt current) db
      (downLoop ms blockHeight exec (versionsDown tgt current) db) := wentDown_downLoop
  split at hnx
  · -- refused: nothing is done
    obtain ⟨ho, rfl⟩ := Prod.mk.inj hnx
    have hdn : c.out.done = [] := by rw [ho]
    refine stops_of_done (b := current) hc rfl hd ?_ ?_ ?_ ?_
    · rw [ho]
      exact Option.some_ne_none _
    · rw [hdn]
      exact nodup_nil
    · rw [hdn]
      exact fun v => iff_of_false not_mem_nil fun hv => absurd hv.2.1 (not_lt.mpr hv.2.2)
    · rw [hdn]
      exact fun v => (and_iff_left not_mem_nil).symm
  next htr =>
    split at hnx
    next hr =>
      obtain ⟨ho, rfl⟩ := Prod.mk.inj hnx
      rw [hr, ← ho] at hlp
      exact stops_of_wentDown hc hd (by rw [ho]; exact Option.some_ne_none _) hlp
    next hr =>
      obtain ⟨ho, rfl⟩ := Prod.mk.inj hnx
      rw [hr, ← ho] at hlp
      exact descends_of_wentDown hc hd (by rw [ho]) (not_le.mp htr).le hlp

end

theorem movesLadder_next (log : List MigrationCall)
    (hc : db.currentVersion = .ok current)
    (hstep : CallStep (migrationNext C ms) db c db') : MovesLadder ms log db c db' := by
  cases hip : c.input with
  | rollbackTo tgt blockHeight exec =>
    have hnx : (c.out, db') = rollbackTo ms tgt blockHeight exec db := by
      rw [hstep.out_eq, hstep.after_eq, hip]
      rfl
    exact movesLadder_of_rollback hc (by rw [hip]; rfl) hnx
  | runPending clock blockHeight exec =>
    refine climbs_of_wentUp hc (by rw [hip]; rfl) ?_
    have hnx : (c.out, db') = upLoop C ms clock blockHeight exec
        (ms.keys.filter fun v => current < v) db := by
      rw [hstep.out_eq, hstep.after_eq, hip]
      simp only [migrationNext, runPending, MigrationDb.pendingMigrations, hc, Except.map]
    rw [hnx]
    exact wentUp_upLoop fun v hv => (mem_pending.mp hv).1

theorem ladder_run {db₀ : MigrationDb} (h₀ : db₀.currentVersion = .ok 0)
    (hrun : MachineRun (migrationNext C ms) db₀ log db) :
    (∃ current, db.currentVersion = .ok current) ∧
      ∃ moves, Run (Moves (Registered ms)) (ladder [] db₀) moves (ladder log db) ∧
        ((∃ m ∈ moves, m.CutShort) ↔ ∃ c ∈ log, CutShort c) := by
  refine Run.logInvariant (P := fun (l : List MigrationCall) (db : MigrationDb) =>
    (∃ current, db.currentVersion = .ok current) ∧
      ∃ moves, Run (Moves (Registered ms)) (ladder [] db₀) moves (ladder l db) ∧
        ((∃ m ∈ moves, m.CutShort) ↔ ∃ c ∈ l, CutShort c)) ?_ ?_ hrun
  · exact ⟨⟨0, h₀⟩, [], .nil, by simp⟩
  · intro l s c s' _ ⟨⟨current, hc⟩, moves, hmv, hcu⟩ hstep
    obtain ⟨hnx, m, hm, hct⟩ := movesLadder_next l hc hstep
    refine ⟨hnx, moves ++ [m], .snoc hmv hm, ?_⟩
    simp only [mem_append, mem_singleton, or_and_right, exists_or, exists_eq_left]
    exact or_congr hcu hct

include hc in
theorem inStep_ladder : InStep ms log db ↔ (ladder log db).InStep (Registered ms) := by
  constructor
  · intro h
    obtain ⟨current', hc', ha⟩ := h.current
    exact ⟨h.alternates, h.last, fun v => by
      rw [ladder_current hc']
      exact ha v⟩
  · intro h
    refine ⟨h.alternates, h.last, current, hc, fun v => ?_⟩
    have ha := h.current v
    rw [ladder_current hc] at ha
    exact ha

/-- **Migrations in step**: after any run, however the migrations fail, exactly when no version is
0 and no rollback has failed after it rolled something back. -/
theorem migrations_in_step_iff {storageTree stateTree : OrdMap Bytes Bytes}
    (hrun : MachineRun (migrationNext C ms) (.fresh storageTree stateTree) log db) :
    InStep ms log db ↔ ¬ Registered ms 0 ∧ ∀ c ∈ log, ¬ CutShort c := by
  obtain ⟨⟨current, hc⟩, moves, hm, hct⟩ := ladder_run rfl hrun
  have hfr : (ladder [] (MigrationDb.fresh storageTree stateTree)).Fresh :=
    ⟨rfl, fun _ => Bool.false_ne_true, fun _ => rfl⟩
  rw [inStep_ladder hc, inStep_iff_of_run hfr hm]
  refine and_congr Iff.rfl ?_
  have hnt := not_congr hct
  push Not at hnt
  exact hnt

end

/-- the built-in migrations go up -/
def builtinUp : MigrationOp :=
  .runPending (fun _ => .ofSecs 5) 10 (builtinBehaviour (.ofSecs 5))

def builtinDown (target : UInt64) : MigrationOp :=
  .rollbackTo target 11 (builtinBehaviour (.ofSecs 6))

def builtinTrace (ops : List MigrationOp) : List MigrationCall × MigrationDb :=
  trace (migrationNext sampleCrypto builtin) (.fresh ∅ ∅) ops

theorem builtin_in_step :
    InStep builtin (builtinTrace [builtinUp, builtinDown 1, builtinUp]).1
      (builtinTrace [builtinUp, builtinDown 1, builtinUp]).2 :=
  (migrations_in_step_iff (machineRun_trace _ _ _)).mpr
    ⟨by unfold Registered; decide +kernel, by decide +kernel⟩

/-- two rollbacks of both migrations -/
def cutRun : List MigrationCall × MigrationDb :=
  builtinTrace [builtinUp, builtinDown 0, builtinDown 0]

/-- The first built-in migration is not reversible.  A rollback of both takes back the second one
and stops there: the current version is still 2, and the next rollback takes it back once more. -/
theorem rollback_cut_short :
    MachineRun (migrationNext sampleCrypto builtin) (.fresh ∅ ∅) cutRun.1 cutRun.2 ∧
      cutRun.1.map (fun c => c.out.result) =
        [.ok [1, 2], .error (.storage "Migration 1 is not reversible"),
          .error (.storage "Migration 1 is not reversible")] ∧
      executions 2 cutRun.1 = [.up, .down, .down] ∧
      cutRun.2.currentVersion = .ok 2 ∧ cutRun.2.isApplied 2 = false ∧
      ¬ InStep builtin cutRun.1 cutRun.2 := by
  have hcurrent : cutRun.2.currentVersion = .ok 2 := by decide +kernel
  have ha : cutRun.2.isApplied 2 = false := by decide +kernel
  refine ⟨machineRun_trace _ _ _, by decide +kernel, by decide +kernel, hcurrent, ha, ?_⟩
  intro h
  obtain ⟨current, heq, hif⟩ := h.current
  rw [hcurrent] at heq
  cases heq
  have htr := (hif 2).mpr ⟨by unfold Registered; decide +kernel, le_refl _⟩
  rw [ha] at htr
  cases htr

end Platform.Dynamic
