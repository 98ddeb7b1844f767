import Platform.Dynamic.Cache
import Platform.Dynamic.Migrations

/-!
# What can be read back

The tree of the dynamic storage is written by two modules: `DynamicStorage` writes entries, and a
`MigrationContext` writes bare values.  A value stands at the front of its entry, so one of them
reads what the other has written, but not the other way round.  And an entry with JSON in it is
written, but cannot be read.
-/

namespace Platform.Dynamic
open Platform.Core Lib DynamicStorage
open scoped Lib.Bytewise

section
variable {s s' : DynamicStorage} {now : SystemTime} {k data : Bytes} {e : StorageEntry}
  {key : StorageKey} {v : StorageValue} {writer : Option Hotkey} {ttl : Option Duration}

/-! ## values across the two modules -/

theorem get_store_self : (s.store k e).tree.get k = some (entryLayout.ser e) :=
  OrdMap.get_insert_self _ _ _

/-- What an accepted `set_with_options` leaves in the tree. -/
theorem get_setWithOptions (h : (s.setWithOptions now key v writer ttl).1 = .ok ()) :
    ∃ e, e.value = v ∧
      (s.setWithOptions now key v writer ttl).2.tree.get key.toBytes =
        some (entryLayout.ser e) := by
  unfold DynamicStorage.setWithOptions at h ⊢
  split at h
  · cases h
  · exact ⟨_, value_revise _ _ _ _ _, get_store_self⟩

def SameBytes (key : StorageKey) (s : DynamicStorage) (ctx : MigrationContext) : Prop :=
  s.tree.get key.toBytes = ctx.storageTree.get key.toBytes

theorem get_of_context_set {ctx : MigrationContext} (hv : v.Plain)
    (h64 : (valueLayout.ser v).length < 2 ^ 64) (hse : (ctx.set key v).1 = .ok ())
    (hs : SameBytes key s (ctx.set key v).2) (hm : s.hit now key.toBytes = none) :
    (s.get now key).1 = .error (.serialization DecodeError.unexpectedEof.display) := by
  have hg : s.tree.get key.toBytes = some (valueLayout.ser v) := by
    rw [hs]
    unfold MigrationContext.set at hse ⊢
    split at hse
    · cases hse
    · exact OrdMap.get_insert_self _ _ _
  unfold DynamicStorage.get
  rw [hm, hg]
  dsimp only
  rw [readEntry, deserialize_entry_of_value hv h64]
  rfl

/-- **Across the formats**: a migration reads every value that the storage has written; the storage
reads a value that a migration has written exactly when it finds that value in its cache. -/
theorem migration_format_iff (hv : v.Plain) :
    (∀ (s : DynamicStorage) (now : SystemTime) (writer : Option Hotkey) (ctx : MigrationContext),
      (s.set now key v writer).1 = .ok () → Fits (s.set now key v writer).2 →
      SameBytes key (s.set now key v writer).2 ctx → ctx.get key = .ok (some v)) ∧
    ∀ (ctx : MigrationContext) (s : DynamicStorage) (now : SystemTime),
      (ctx.set key v).1 = .ok () → (valueLayout.ser v).length < 2 ^ 64 →
      SameBytes key s (ctx.set key v).2 →
      ((∃ e, (s.get now key).1 = .ok (some e) ∧ e.value = v) ↔
        ∃ e, s.hit now key.toBytes = some e ∧ e.value = v) := by
  constructor
  · intro s now writer ctx hse hft hs
    obtain ⟨e, rfl, hg⟩ := get_setWithOptions hse
    have hl := hft _ _ hg
    have hct : ctx.storageTree.get key.toBytes = some (entryLayout.ser e) := by
      rw [← hs]
      exact hg
    rw [MigrationContext.get, hct]
    dsimp only
    rw [deserialize_value_of_entry hv.1 hl, hv.2]
    rfl
  intro ctx s now hse h64 hs
  cases hh : s.hit now key.toBytes with
  | none =>
    rw [get_of_context_set hv h64 hse hs hh]
    simp
  | some e =>
    have hg : (s.get now key).1 = .ok (some e) := by
      unfold DynamicStorage.get
      rw [hh]
    rw [hg]
    simp

end

def migrated : Ran × MigrationDb :=
  runMigrations sampleCrypto (fun _ => .ofSecs 5) 10 (.ofSecs 5) (.fresh ∅ ∅)

def migratedStorage : DynamicStorage := { new true 10 with
  tree := migrated.2.storageTree }

def cachedStorage : DynamicStorage :=
  ((new true 10).set (.ofSecs 5) (.system "n") (.u64 7) none).2

def cachedContext : MigrationContext := .new cachedStorage.tree ∅ 10

def emptyContext : MigrationContext := .new ∅ ∅ 10

def rewritten (s : DynamicStorage) (ctx : MigrationContext) : DynamicStorage :=
  { s with tree := (ctx.set (.system "n") (.u64 7)).2.storageTree }

theorem migration_format_cached :
    cachedContext.get (.system "n") = .ok (some (.u64 7)) ∧
      ∃ e, ((rewritten cachedStorage cachedContext).get (.ofSecs 6)
        (.system "n")).1 = .ok (some e) ∧ e.value = .u64 7 := by
  have hfr := @migration_format_iff (.system "n") (.u64 7) ⟨rfl, rfl⟩
  constructor
  · refine hfr.1 (.new true 10) (.ofSecs 5) none _ rfl ?_ rfl
    rw [fits_iff]
    decide +kernel
  · exact (hfr.2 cachedContext (rewritten cachedStorage cachedContext)
      (.ofSecs 6) rfl (by decide) rfl).mpr ⟨_, rfl, rfl⟩

/-- The value that a migration has written is an error for the storage, and so is the schema version
that the built-in migrations write. -/
theorem migrated_value_unreadable :
    (emptyContext.set (.system "n") (.u64 7)).1 = .ok () ∧
      ((rewritten (.new true 10) emptyContext).get (.ofSecs 6) (.system "n")).1 =
        .error (.serialization "io error: unexpected end of file") ∧
      migrated.1.result = .ok [1, 2] ∧
      (migratedStorage.get (.ofSecs 6) (.system "schema_version")).1.map
        (fun _ => ()) = .error (.serialization "io error: unexpected end of file") :=
  ⟨rfl, get_of_context_set ⟨rfl, rfl⟩ (by decide) rfl rfl rfl, by decide +kernel, by decide +kernel⟩

/-! ## what the tree holds over a run -/

def Encodes (data : Bytes) (e : StorageEntry) : Prop :=
  data = entryLayout.ser e ∧ e.value.hashed = true ∧ data.length < 2 ^ 64

/-- The tree holds entries, and what is in the cache can be written. -/
structure Sound (s : DynamicStorage) : Prop where
  encodes : ∀ {k data}, s.tree.get k = some data → ∃ e, Encodes data e
  cached : ∀ {k e}, s.cache.lookup k = some e → e.value.hashed = true

def DynamicOp.Hashed : DynamicOp → Prop
  | .set _ value _ => value.hashed = true
  | .setWithTtl _ value _ _ => value.hashed = true
  | .listPush _ value _ => value.hashed = true
  | .mapSet _ _ value _ => value.hashed = true
  | _ => True

section
variable {s s' : DynamicStorage} {now : SystemTime} {k data : Bytes} {e : StorageEntry}
  {key : StorageKey} {v : StorageValue} {writer : Option Hotkey} {ttl : Option Duration}

theorem Encodes.read (h : Encodes data e) :
    readEntry data = if e.value.jsonFree then .ok e
      else .error (.serialization deserializeAny.display) := by
  obtain ⟨rfl, hh, hl⟩ := h
  rw [readEntry, deserialize_entry hh hl]
  cases e.value.jsonFree with
  | false => rfl
  | true => rfl

theorem Encodes.read_eq_ok (h : Encodes data e) {e' : StorageEntry} :
    readEntry data = .ok e' ↔ e.value.jsonFree = true ∧ e' = e := by
  rw [h.read]
  cases e.value.jsonFree with
  | false => simp
  | true => simp [eq_comm]

theorem Encodes.unique {e' : StorageEntry} (h : Encodes data e) (h' : Encodes data e')
    (hj : e.value.jsonFree = true) : e' = e := by
  have hr : readEntry data = .ok e := h.read_eq_ok.mpr ⟨hj, rfl⟩
  exact (h'.read_eq_ok.mp hr).2.symm

theorem Sound.remember (h : Sound s) (he : e.value.hashed = true) : Sound (s.remember k e) := by
  unfold DynamicStorage.remember
  split
  · refine ⟨h.encodes, ?_⟩
    intro k' e' hk'
    rcases (HashMap.lookup_insert_iff _ _ _ _ _).mp hk' with ⟨_, rfl⟩ | ⟨_, hk'⟩
    · exact he
    · exact h.cached hk'
  · exact h

theorem Sound.remove (h : Sound s) (k : Bytes) : Sound (s.remove k) where
  encodes := by
    intro k' data hk'
    rw [DynamicStorage.remove, OrdMap.get_erase] at hk'
    split at hk'
    · cases hk'
    · exact h.encodes hk'
  cached := by
    intro k' e hk'
    unfold DynamicStorage.remove at hk'
    split at hk'
    · exact h.cached ((HashMap.lookup_erase_iff _ _ _ _).mp hk').2
    · exact h.cached hk'

theorem Sound.store (h : Sound s) (he : Encodes (entryLayout.ser e) e) (k : Bytes) :
    Sound (s.store k e) where
  encodes := by
    intro k' data hk'
    rw [DynamicStorage.store, OrdMap.get_insert] at hk'
    split at hk'
    · cases hk'
      exact ⟨e, he⟩
    · exact h.encodes hk'
  cached := by
    intro k' e' hk'
    unfold DynamicStorage.store at hk'
    split at hk'
    · rcases (HashMap.lookup_insert_iff _ _ _ _ _).mp hk' with ⟨_, rfl⟩ | ⟨_, hk'⟩
      · exact he.2.1
      · exact h.cached hk'
    · exact h.cached hk'

theorem Sound.get (h : Sound s) (now : SystemTime) (key : StorageKey) :
    Sound (s.get now key).2 ∧
      ∀ old, (s.get now key).1 = .ok old → ∀ e ∈ old, e.value.hashed = true := by
  unfold DynamicStorage.get
  split
  · next e hh =>
    refine ⟨h, ?_⟩
    intro old ho e' he'
    cases ho
    cases he'
    exact h.cached (hit_eq_some hh).1
  · split
    · exact ⟨h, fun old ho e he => by cases ho; cases he⟩
    · next data hg =>
      obtain ⟨e, hen⟩ := h.encodes hg
      split
      · exact ⟨h, fun old ho => by cases ho⟩
      · next e' hr =>
        obtain ⟨_, rfl⟩ := hen.read_eq_ok.mp hr
        split
        · exact ⟨h.remove _, fun old ho e he => by cases ho; cases he⟩
        · refine ⟨h.remember hen.2.1, ?_⟩
          intro old ho e he
          cases ho
          cases he
          exact hen.2.1

theorem Sound.get_cases (h : Sound s) (now : SystemTime) (key : StorageKey) :
    (∃ err s', s.get now key = (.error err, s') ∧ Sound s') ∨
      ∃ old s', s.get now key = (.ok old, s') ∧ (∀ e ∈ old, e.value.hashed = true) ∧ Sound s' := by
  obtain ⟨hsn, ho⟩ := h.get now key
  rcases hg : s.get now key with ⟨err | old, s'⟩
  · rw [hg] at hsn
    exact .inl ⟨err, s', rfl, hsn⟩
  · rw [hg] at hsn ho
    exact .inr ⟨old, s', rfl, ho old rfl, hsn⟩

theorem Sound.setWithOptions (h : Sound s) (hv : v.hashed = true)
    (hft : Fits (s.setWithOptions now key v writer ttl).2) :
    Sound (s.setWithOptions now key v writer ttl).2 := by
  unfold DynamicStorage.setWithOptions at hft ⊢
  rcases h.get_cases now key with ⟨err, s', hg, hsn⟩ | ⟨old, s', hg, _, hsn⟩
  · rw [hg]
    exact hsn
  · rw [hg] at hft ⊢
    refine hsn.store ⟨rfl, ?_, hft key.toBytes _ get_store_self⟩ _
    rw [value_revise]
    exact hv

theorem Sound.cleanupExpired (h : Sound s) (now : SystemTime) : Sound (s.cleanupExpired now).2 where
  encodes hk := h.encodes (OrdMap.get_of_foldl_erase hk)
  cached := by
    intro k e hk
    unfold DynamicStorage.cleanupExpired at hk
    split at hk
    · exact h.cached ((HashMap.lookup_retain_iff _ _ _ _).mp hk).1
    · exact h.cached hk

theorem Sound.listPush (h : Sound s) (hv : v.hashed = true)
    (hft : Fits (s.listPush now key v writer).2) : Sound (s.listPush now key v writer).2 := by
  unfold DynamicStorage.listPush at hft ⊢
  rcases h.get_cases now key with ⟨err, s', hg, hsn⟩ | ⟨old, s', hg, ho, hsn⟩
  · rw [hg]
    exact hsn
  · rw [hg] at hft ⊢
    dsimp only at hft ⊢
    cases hls : listAt key old with
    | error err => exact hsn
    | ok l =>
      rw [hls] at hft
      have hl := listAt_spec (P := fun v => v.hashed = true) (by decide) ho hls
      exact hsn.setWithOptions (hashed_push hl hv) hft

theorem Sound.mapSet {fld : String} (h : Sound s) (hv : v.hashed = true)
    (hft : Fits (s.mapSet now key fld v writer).2) :
    Sound (s.mapSet now key fld v writer).2 := by
  unfold DynamicStorage.mapSet at hft ⊢
  rcases h.get_cases now key with ⟨err, s', hg, hsn⟩ | ⟨old, s', hg, ho, hsn⟩
  · rw [hg]
    exact hsn
  · rw [hg] at hft ⊢
    dsimp only at hft ⊢
    cases hmp : mapAt key old with
    | error err => exact hsn
    | ok m =>
      rw [hmp] at hft
      have hm := mapAt_spec (P := fun v => v.hashed = true) (by decide) ho hmp
      exact hsn.setWithOptions (hashed_insertField hm hv fld) hft

theorem Sound.increment {delta : Int64} (h : Sound s)
    (hft : Fits (s.increment now key delta writer).2) :
    Sound (s.increment now key delta writer).2 := by
  unfold DynamicStorage.increment at hft ⊢
  rcases h.get_cases now key with ⟨err, s', hg, hsn⟩ | ⟨old, s', hg, _, hsn⟩
  · rw [hg]
    exact hsn
  · rw [hg] at hft ⊢
    exact hsn.setWithOptions rfl hft

theorem Sound.delete (h : Sound s) (now : SystemTime) (key : StorageKey) :
    Sound (s.delete now key).2 := by
  unfold DynamicStorage.delete
  rcases h.get_cases now key with ⟨err, s', hg, hsn⟩ | ⟨old, s', hg, _, hsn⟩
  · rw [hg]
    exact hsn
  · rw [hg]
    exact hsn.remove key.toBytes

theorem Sound.next (h : Sound s) (inp : SystemTime × DynamicOp) (hop : inp.2.Hashed)
    (hft : Fits (dynamicNext s inp).2) : Sound (dynamicNext s inp).2 := by
  obtain ⟨now, op⟩ := inp
  cases op with
  | get key => exact (h.get now key).1
  | set key val writer | setWithTtl key val writer ttl => exact h.setWithOptions hop hft
  | delete key => exact h.delete now key
  | increment key delta writer => exact h.increment hft
  | listPush key val writer => exact h.listPush hop hft
  | mapSet key fld val writer => exact h.mapSet hop hft
  | cleanupExpired => exact h.cleanupExpired now
  | clearCache => exact ⟨h.encodes, fun hk => nomatch hk⟩

theorem sound_run {enabled : Bool} {maxSize : Nat} {log : List DynamicCall}
    (hrun : MachineRun dynamicNext (.new enabled maxSize) log s)
    (hg : ∀ c ∈ log, c.input.2.Hashed ∧ Fits c.after) : Sound s := by
  have hn : Sound (.new enabled maxSize) := by
    constructor
    · intro k data hk
      cases hk
    · intro k e hk
      cases hk
  refine Run.guarded hn ?_ hrun hg
  intro s c s' hs ⟨hop, hft⟩ hstep
  rw [hstep.2.1, hstep.after_eq] at hft
  rw [hstep.after_eq]
  exact hs.next c.input hop hft

/-! ## values that stay usable -/

def Stored (s : DynamicStorage) (k : Bytes) (e : StorageEntry) : Prop :=
  ∃ data, s.tree.get k = some data ∧ Encodes data e

/-- The value is found, can be written over and deleted, and its namespace can be scanned. -/
structure Usable (s : DynamicStorage) (now : SystemTime) (key : StorageKey) (v : StorageValue) :
    Prop where
  get : ∃ e, (s.get now key).1 = .ok (some e) ∧ e.value = v
  set : ∀ v' writer, (s.set now key v' writer).1 = .ok ()
  delete : ∃ old, (s.delete now key).1 = .ok old
  scan : ∃ l, s.scanNamespace now key.ns = .ok l

theorem hit_of_cache_empty (h : s.cache = ∅) : s.hit now k = none := by
  unfold hit
  rw [h]
  split
  · rfl
  · rfl

theorem get_of_stored (now : SystemTime) (hcc : s.cache = ∅)
    (hg : s.tree.get key.toBytes = some data) (he : Encodes data e) :
    (s.get now key).1 =
      if e.value.jsonFree then .ok (if e.isExpired now then none else some e)
      else .error (.serialization deserializeAny.display) := by
  unfold DynamicStorage.get
  rw [hit_of_cache_empty hcc, hg]
  dsimp only
  rw [he.read]
  cases e.value.jsonFree with
  | false => rfl
  | true =>
    cases hex : e.isExpired now with
    | false | true => simp [hex]

theorem scanLoop_ok_iff {l : List (Bytes × Bytes)} :
    (∃ r, scanLoop now l = .ok r) ↔ ∀ p ∈ l, ∃ e, readEntry p.2 = .ok e := by
  induction l with
  | nil => simp [scanLoop]
  | cons p l ih =>
    obtain ⟨k, data⟩ := p
    rw [List.forall_mem_cons, ← ih, scanLoop]
    cases readEntry data with
    | error err => simp
    | ok e =>
      cases scanLoop now l with
      | error err => simp
      | ok r =>
        refine iff_of_true ?_ ⟨⟨e, rfl⟩, r, rfl⟩
        dsimp only
        split
        · exact ⟨_, rfl⟩
        · exact ⟨_, rfl⟩

theorem scanNamespace_ok_iff (h : Sound s) (ns : String) :
    (∃ l, s.scanNamespace now ns = .ok l) ↔
      ∀ k e, Stored s k e → StorageKey.namespacePrefix ns <+: k → e.value.jsonFree = true := by
  rw [scanNamespace, scanLoop_ok_iff]
  constructor
  · intro ha k e ⟨data, hg, hen⟩ hsr
    obtain ⟨e', hr⟩ := ha (k, data) (mem_scanPrefix.mpr ⟨hg, hsr⟩)
    exact (hen.read_eq_ok.mp hr).1
  · intro hfr ⟨k, data⟩ hmem
    obtain ⟨hg, hsr⟩ := mem_scanPrefix.mp hmem
    obtain ⟨e, hen⟩ := h.encodes hg
    have hj := hfr k e ⟨data, hg, hen⟩ hsr
    exact ⟨e, hen.read_eq_ok.mpr ⟨hj, rfl⟩⟩

/-- **Stored values stay usable**: a value that was accepted can be used once the cache has gone,
after `clear_cache` or a restart, exactly when there is no JSON in it or in its namespace and it has
not expired. -/
theorem stored_usable_iff {enabled : Bool} {maxSize : Nat} {log : List DynamicCall}
    {t : SystemTime} (hrun : MachineRun dynamicNext (.new enabled maxSize) log s)
    (hgood : ∀ c ∈ log, c.input.2.Hashed ∧ Fits c.after) (hv : v.hashed = true)
    (hset : (s.set now key v writer).1 = .ok ()) (hfits : Fits (s.set now key v writer).2)
    (htree : s'.tree = (s.set now key v writer).2.tree) (hcache : s'.cache = ∅) :
    Usable s' t key v ↔
      (∀ k e, Stored s' k e → StorageKey.namespacePrefix key.ns <+: k → e.value.jsonFree = true) ∧
      ∀ e, Stored s' key.toBytes e → e.isExpired t = false := by
  have hsn : Sound s' := by
    refine ⟨?_, ?_⟩
    · rw [htree]
      exact ((sound_run hrun hgood).setWithOptions hv hfits).encodes
    · rw [hcache]
      intro k e hk
      cases hk
  obtain ⟨e, hvl, hg⟩ := get_setWithOptions hset
  have hg' : s'.tree.get key.toBytes = some (entryLayout.ser e) := by
    rw [htree]
    exact hg
  have hen : Encodes (entryLayout.ser e) e := ⟨rfl, by rw [hvl]; exact hv, hfits _ _ hg⟩
  have hsr : Stored s' key.toBytes e := ⟨_, hg', hen⟩
  have hr := get_of_stored t hcache hg' hen
  constructor
  · intro h
    have hfe := (scanNamespace_ok_iff hsn key.ns).mp h.scan
    refine ⟨hfe, ?_⟩
    intro e' ⟨data, hdt, hen'⟩
    have hj := hfe _ _ hsr (namespacePrefix_toBytes key)
    rw [hg'] at hdt
    cases hdt
    rw [hen.unique hen' hj]
    obtain ⟨found, hfn, _⟩ := h.get
    rw [hr, hj] at hfn
    cases he : e.isExpired t with
    | false => rfl
    | true =>
      rw [he] at hfn
      cases hfn
  · intro ⟨hfe, hfr⟩
    have hj := hfe _ _ hsr (namespacePrefix_toBytes key)
    rw [hj, hfr e hsr] at hr
    refine ⟨⟨e, hr, hvl⟩, fun v' writer => ?_, ⟨some e.value, ?_⟩,
      (scanNamespace_ok_iff hsn key.ns).mpr hfe⟩
    · unfold DynamicStorage.set DynamicStorage.setWithOptions
      rcases hg : s'.get t key with ⟨_ | _, s'⟩
      · rw [hg] at hr
        cases hr
      · rfl
    · unfold DynamicStorage.delete
      rcases hg : s'.get t key with ⟨_ | _, s'⟩
      · rw [hg] at hr
        cases hr
      · rw [hg] at hr
        cases hr
        rfl

end

def cleared (v : StorageValue) : DynamicStorage :=
  ((new true 10).set (.ofSecs 5) (.system "n") v none).2.clearCache

theorem stored_usable_list : Usable (cleared (.list [.u64 7, .null])) (.ofSecs 6)
    (.system "n") (.list [.u64 7, .null]) := by
  have hft : Fits (cleared (.list [.u64 7, .null])) := by
    rw [fits_iff]
    decide +kernel
  have hen : Encodes
      (entryLayout.ser (.new (.ofSecs 5) (.list [.u64 7, .null]) none))
      (.new (.ofSecs 5) (.list [.u64 7, .null]) none) := ⟨rfl, rfl, by decide +kernel⟩
  -- there is one entry in the tree
  have hon : ∀ k e, Stored (cleared (.list [.u64 7, .null])) k e →
      e = .new (.ofSecs 5) (.list [.u64 7, .null]) none := by
    intro k e ⟨data, hg, he⟩
    have het := OrdMap.get_eq_some.mp hg
    obtain ⟨_, rfl⟩ := Prod.mk.inj (List.mem_singleton.mp het)
    exact hen.unique he rfl
  have htr : (cleared (.list [.u64 7, .null])).tree = ((new true 10).set
      (.ofSecs 5) (.system "n") (.list [.u64 7, .null]) none).2.tree := rfl
  refine (stored_usable_iff .nil (fun c hc => nomatch hc) rfl rfl hft htr rfl).mpr ⟨?_, ?_⟩
  · intro k e he _
    rw [hon k e he]
    rfl
  · intro e he
    rw [hon _ e he]
    rfl

/-- the error of every attempt to read JSON -/
def unreadable : DynamicError := .serialization deserializeAny.display

/-- A JSON value is accepted, and then its key can be neither read nor written nor deleted, and its
namespace cannot be scanned. -/
theorem json_unusable :
    ((new true 10).set (.ofSecs 5) (.system "n") (.json []) none).1 = .ok () ∧
      ((cleared (.json [])).get (.ofSecs 6) (.system "n")).1.map (fun _ => ()) = .error unreadable ∧
      ((cleared (.json [])).set (.ofSecs 6) (.system "n") .null none).1 = .error unreadable ∧
      ((cleared (.json [])).delete (.ofSecs 6) (.system "n")).1.map (fun _ => ()) =
        .error unreadable ∧
      ((cleared (.json [])).scanNamespace (.ofSecs 6) "system").map (fun _ => ()) =
        .error unreadable ∧
      ¬ Usable (cleared (.json [])) (.ofSecs 6) (.system "n") (.json []) := by
  have hse : ((cleared (.json [])).set (.ofSecs 6) (.system "n") .null none).1 =
      .error unreadable := by decide +kernel
  refine ⟨rfl, by decide +kernel, hse, by decide +kernel, by decide +kernel, ?_⟩
  intro h
  have hok := h.set .null none
  cases hok

end Platform.Dynamic
