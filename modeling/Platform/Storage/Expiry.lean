import Platform.Storage.Coherence

/-!
# Reading back what was put, until it expires

An update keeps `created_at` of the entry that it replaces, and its time to live unless it brings
one of its own.
-/

namespace Platform.Storage
open Platform.Core Lib Chain List LocalStorage
open scoped Lib.Bytewise

/-! ## arithmetic of the deadline -/

variable (T : Int64) (t : UInt64) (s : LocalStorage)

theorem toInt_deadline (h : T.toInt + 1000 * t.toNat < 2 ^ 63) :
    (T + t.toInt64 * 1000).toInt = T.toInt + 1000 * t.toNat := by
  have hlw := T.le_toInt
  have hth : (1000 : Int64).toInt = 1000 := by decide
  have ht : t.toInt64.toInt = (t.toNat : Int).bmod (2 ^ 64) := by
    show t.toBitVec.toInt = _
    rw [BitVec.toInt_eq_toNat_bmod]
    rfl
  rw [Int64.toInt_add, Int64.toInt_mul, hth, ht, Int.bmod_mul_bmod, Int.add_bmod_bmod,
    Int.bmod_eq_of_le]
  · omega
  · omega
  · omega

variable {now : Int64}

theorem isExpired_iff {m : ValueMetadata} (ht : m.ttlSeconds ≠ 0)
    (h : m.createdAt.toInt + 1000 * m.ttlSeconds.toNat < 2 ^ 63) :
    m.isExpired now = true ↔ m.createdAt.toInt + 1000 * m.ttlSeconds.toNat < now.toInt := by
  rw [ValueMetadata.isExpired, if_neg ht, decide_eq_true_eq, Int64.lt_iff_toInt_lt,
    toInt_deadline _ _ h]

/-! ## the condition on a put -/

/-- The entry that a put replaces hands on nothing that changes the expiry: it was created at the
same instant, or neither of the two expires. -/
def FreshExpiry (now : Int64) (k : StorageKey) (ttl : UInt64) : Prop :=
  ∀ old, s.data.get k.toBytes = some old →
    (ttl = 0 ∧ old.value.metadata.ttlSeconds = 0) ∨ (ttl ≠ 0 ∧ old.value.metadata.createdAt = now)

/-- A put that keeps its own expiry and whose deadline can be written. -/
structure GoodPut (now : Int64) (k : StorageKey) (ttl : UInt64) : Prop where
  fresh : FreshExpiry s now k ttl
  deadline : now.toInt + 1000 * ttl.toNat < 2 ^ 63

/-! ## an entry after its put -/

/-- The entry of a put of `value` at the time `T` with the time to live `t`. -/
structure Holds (value : Bytes) (T : Int64) (t : UInt64) (e : LocalEntry) : Prop where
  data : e.value.data = value
  ttl : e.value.metadata.ttlSeconds = t
  created : t ≠ 0 → e.value.metadata.createdAt = T

/-- the deadline of the put has passed -/
def Due (now : Int64) : Prop :=
  t ≠ 0 ∧ T.toInt + 1000 * t.toNat < now.toInt

def Kept (value : Bytes) (T : Int64) (t : UInt64) (b : Bytes) (s : LocalStorage) : Prop :=
  ∃ e, s.data.get b = some e ∧ Holds value T t e

section
variable {C : Crypto} {s s' : LocalStorage} {c : Int64 × LocalOp} {value b : Bytes} {T : Int64}
  {t : UInt64} {k : StorageKey}

variable {bid : Option UInt64} {e : LocalEntry} {opts : PutOptions}

theorem Holds.isExpired_iff (he : Holds value T t e) (hf : T.toInt + 1000 * t.toNat < 2 ^ 63)
    (now : Int64) :
    e.value.metadata.isExpired now = true ↔ Due T t now := by
  by_cases ht : t = 0
  · rw [ValueMetadata.isExpired, he.ttl, if_pos ht]
    exact ⟨fun h => absurd h Bool.false_ne_true, fun h => absurd ht h.1⟩
  · have hc := he.created ht
    have hne : e.value.metadata.ttlSeconds ≠ 0 := he.ttl ▸ ht
    rw [Platform.Storage.isExpired_iff hne (by rw [hc, he.ttl]; exact hf), hc, he.ttl]
    exact ⟨fun h => ⟨ht, h⟩, fun h => h.2⟩

theorem holds_entryFor (h : GoodPut s now k opts.ttlSeconds) :
    Holds value now opts.ttlSeconds
      (entryFor C now s.nodeId (s.data.get k.toBytes) value opts bid) where
  data := data_storedFor C now s.nodeId _ value opts
  ttl := by
    show (storedFor C now s.nodeId _ value opts).metadata.ttlSeconds = _
    unfold storedFor
    by_cases ht : 0 < opts.ttlSeconds
    · simp only [if_pos ht]
    · have hz : opts.ttlSeconds = 0 := UInt64.not_lt.mp ht |> UInt64.le_zero_iff.mp
      simp only [if_neg ht]
      cases ho : s.data.get k.toBytes with
      | none => exact hz.symm
      | some old =>
        rcases h.fresh old ho with ⟨-, ho⟩ | ⟨hne, -⟩
        · exact ho.trans hz.symm
        · exact absurd hz hne
  created := by
    intro hne
    show (storedFor C now s.nodeId _ value opts).metadata.createdAt = _
    unfold storedFor
    cases ho : s.data.get k.toBytes with
    | none => simp only; split <;> rfl
    | some old =>
      rcases h.fresh old ho with ⟨hz, -⟩ | ⟨-, hc⟩
      · exact absurd hz hne
      · simp only
        split <;> exact hc

theorem Effect.data_none (h : Effect C s c s') (hn : s.data.get b = none)
    (hqt : c.2.rewrites = true → c.2.key.toBytes ≠ b) : s'.data.get b = none := by
  by_cases hb : b = c.2.key.toBytes
  · subst hb
    cases h with
    | same => exact hn
    | put _ _ | putWithBlock _ _ | delete _ => exact absurd rfl (hqt rfl)
    | expired hr _ | markReplicated hr =>
      exact absurd (hr.symm.trans hn) (Option.some_ne_none _)
  · rw [h.data_of_ne hb, hn]

/-- **One call between the put and the next one**: the entry stays, or a read finds it expired. -/
theorem Kept.step (hs : Kept value T t b s) (hf : T.toInt + 1000 * t.toNat < 2 ^ 63)
    (h : Effect C s c s')
    (hqt : c.2.rewrites = true → c.2.key.toBytes ≠ b) :
    Kept value T t b s' ∨ (s'.data.get b = none ∧ Due T t c.1) := by
  obtain ⟨e, hgt, he⟩ := hs
  by_cases hb : b = c.2.key.toBytes
  · subst hb
    cases h with
    | same => exact .inl ⟨e, hgt, he⟩
    | put _ _ | putWithBlock _ _ | delete _ => exact absurd rfl (hqt rfl)
    | @expired now k e' hr hex =>
      have hsm : e = e' := Option.some_inj.mp (hgt.symm.trans hr)
      subst hsm
      exact .inr ⟨OrdMap.get_erase_self _ _, (he.isExpired_iff hf now).mp hex⟩
    | @markReplicated now k nid e' hr =>
      have hsm : e = e' := Option.some_inj.mp (hgt.symm.trans hr)
      subst hsm
      exact .inl ⟨_, OrdMap.get_insert_self _ _ _, he.data, he.ttl, he.created⟩
  · exact .inl ⟨e, (h.data_of_ne hb).trans hgt, he⟩

/-- **All calls between the put and the next one.** -/
theorem Kept.run {l : List LocalCall} (hs : Kept value T t b s)
    (hf : T.toInt + 1000 * t.toNat < 2 ^ 63) (hrun : MachineRun (localNext C) s l s')
    (hqu : ∀ x ∈ l, x.input.2.rewrites = true → x.input.2.key.toBytes ≠ b) :
    Kept value T t b s' ∨ (s'.data.get b = none ∧ ∃ x ∈ l, Due T t x.input.1) := by
  refine Run.logInvariant (P := fun (l : List LocalCall) s' => Kept value T t b s' ∨
    (s'.data.get b = none ∧ ∃ x ∈ l, Due T t x.input.1)) (.inl hs) ?_
    (hrun.restrict hqu)
  rintro l s₁ x s₂ - hiv ⟨hstep, hqt⟩
  have hef : Effect C s₁ x.input s₂ := hstep.after_eq ▸ effect_of_next C s₁ x.input
  rcases hiv with hk | ⟨hn, y, hy, hdu⟩
  · rcases hk.step hf hef hqt with hk | ⟨hn, hdu⟩
    · exact .inl hk
    · exact .inr ⟨hn, x, mem_append_right l mem_cons_self, hdu⟩
  · exact .inr ⟨hef.data_none hn hqt, y, mem_append_left [x] hy, hdu⟩

/-! ## what a read returns -/

theorem get_of_kept (hs : Kept value T t k.toBytes s) (hf : T.toInt + 1000 * t.toNat < 2 ^ 63)
    (hdu : ¬ Due T t now) :
    ∃ v, (localNext C s (now, .get k)).1 = .ok (.value (some v)) ∧ v.data = value := by
  obtain ⟨e, hg, he⟩ := hs
  have hlv : ¬ e.value.metadata.isExpired now = true :=
    fun h => hdu ((he.isExpired_iff hf now).mp h)
  refine ⟨e.value, ?_, he.data⟩
  show (settle s _ (s.get C now k)).1 = _
  rw [get_of_some C hg, if_neg hlv]
  rfl

end

/-- **Read your writes.**  In a run whose clock does not go back, after a put `c` and before the
next put or delete of its key, a read `g` returns the value of the put up to its deadline and
nothing after it: if the put is good and no key in between has the bytes of `k` in another
spelling. -/
theorem read_your_writes {C : Crypto} {s₀ s : LocalStorage}
    {l₁ l₂ : List LocalCall} {c g : LocalCall} {k : StorageKey} {value : Bytes}
    {options : PutOptions} {blockId : Option UInt64} {m : LocalOut}
    (hrun : MachineRun (localNext C) s₀ (l₁ ++ c :: (l₂ ++ [g])) s)
    (hclock : (l₁ ++ c :: (l₂ ++ [g])).Pairwise fun x y => x.input.1 ≤ y.input.1)
    (hput : c.input.2.written = some (k, value, options, blockId)) (hok : c.out = .ok m)
    (hquiet : ∀ x ∈ l₂, x.input.2.rewrites = true → x.input.2.key ≠ k)
    (hget : g.input.2 = .get k) (hgood : GoodPut c.before c.input.1 k options.ttlSeconds)
    (hspelling : ∀ x ∈ l₂, x.input.2.key.toBytes = k.toBytes → x.input.2.key = k) :
    (options.ttlSeconds = 0 ∨ g.input.1.toInt ≤ c.input.1.toInt + 1000 * options.ttlSeconds.toNat →
      ∃ v, g.out = .ok (.value (some v)) ∧ v.data = value) ∧
    (options.ttlSeconds ≠ 0 → c.input.1.toInt + 1000 * options.ttlSeconds.toNat < g.input.1.toInt →
      g.out = .ok (.value none)) := by
  obtain ⟨s₁, -, hfr⟩ := hrun.split
  obtain ⟨s₂, hc, ha⟩ := hfr.head
  obtain ⟨s₃, hbt, hg⟩ := ha.snoc_inv
  obtain ⟨cb, ⟨T, op⟩, co, ca⟩ := c
  obtain ⟨gb, ⟨now, opg⟩, go, ga⟩ := g
  obtain rfl : opg = .get k := hget
  obtain ⟨rfl, -, hnx⟩ := hc
  have hf : T.toInt + 1000 * options.ttlSeconds.toNat < 2 ^ 63 := hgood.deadline
  have hk : Kept value T options.ttlSeconds k.toBytes s₂ := by
    rcases next_put_cases C cb T hput with ⟨err, h⟩ | ⟨-, h⟩
    · cases (congrArg Prod.fst (h.symm.trans hnx)).trans hok
    · rw [← show _ = s₂ from congrArg Prod.snd (h.symm.trans hnx)]
      exact ⟨_, OrdMap.get_insert_self _ _ _, holds_entryFor hgood⟩
  have hla : ∀ x ∈ l₂, x.input.1.toInt ≤ now.toInt := by
    intro x hx
    have h := (pairwise_append.mp (pairwise_cons.mp
      (pairwise_append.mp hclock).2.1).2).2.2 x hx _ mem_cons_self
    exact Int64.le_iff_toInt_le.mp h
  have hen := hk.run hf hbt
    (fun x hx hrw hby => hquiet x hx hrw (hspelling x hx hby))
  show (_ → ∃ v, go = _ ∧ _) ∧ (_ → _ → go = _)
  rw [show go = _ from hg.out_eq]
  constructor
  · intro hbf
    have hnt : ¬ Due T options.ttlSeconds now := by
      rintro ⟨hne, hlt⟩
      rcases hbf with hz | hle
      · exact hne hz
      · exact absurd hlt (not_lt.mpr hle)
    rcases hen with hk | ⟨-, x, hx, hne, hlt⟩
    · exact get_of_kept hk hf hnt
    · -- a read that found it expired came before this one
      exact absurd ⟨hne, lt_of_lt_of_le hlt (hla x hx)⟩ hnt
  · intro hne hlt
    rcases hen with hk | ⟨hn, -⟩
    · obtain ⟨e, hget, he⟩ := hk
      show (settle s₃ _ (s₃.get C now k)).1 = _
      rw [get_of_some C hget, if_pos ((he.isExpired_iff hf now).mpr ⟨hne, hlt⟩)]
      rfl
    · show (settle s₃ _ (s₃.get C now k)).1 = _
      rw [get_of_none C hn]
      rfl

def readSample (now : Int64) : List (Int64 × LocalOp) :=
  [(1000, .put ⟨"a", [1]⟩ [7] ⟨false, 10, none⟩), (2000, .markReplicated ⟨"a", [1]⟩ "peer"),
    (now, .get ⟨"a", [1]⟩)]

def callsOf (ops : List (Int64 × LocalOp)) : List LocalCall :=
  (trace (localNext sampleCrypto) (.inMemory "node") ops).1

theorem goodPut_inMemory : GoodPut (.inMemory "node") 1000 ⟨"a", [1]⟩ 10 :=
  ⟨fun old ho => absurd ho (Option.some_ne_none old).symm, by decide⟩

theorem read_your_writes_ten_seconds :
    (∃ v, ((callsOf (readSample 11000)).map Call.out)[2]? = some (.ok (.value (some v))) ∧
      v.data = [7]) ∧
    ((callsOf (readSample 12000)).map Call.out)[2]? = some (.ok (.value none)) := by
  have hlt := (@read_your_writes sampleCrypto (.inMemory "node") _ []
    ((callsOf (readSample 12000)).tail.take 1) _ _ _ _ _ _ _
    (machineRun_trace _ _ (readSample 12000)) (by decide +kernel) rfl rfl
    (by decide +kernel) rfl goodPut_inMemory (by decide +kernel)).2
    (by decide) (by decide)
  obtain ⟨v, hv, hdt⟩ := (@read_your_writes sampleCrypto (.inMemory "node") _ []
    ((callsOf (readSample 11000)).tail.take 1) _ _ _ _ _ _ _
    (machineRun_trace _ _ (readSample 11000)) (by decide +kernel) rfl rfl
    (by decide +kernel) rfl goodPut_inMemory (by decide +kernel)).1
    (.inr (by decide))
  exact ⟨⟨v, congrArg some hv, hdt⟩, congrArg some hlt⟩

/-- Put for ten seconds at 0 s and again at 9 s: at 11 s the second value is gone. -/
theorem expiry_inherited :
    ¬ ∀ (C : Crypto) (s₀ s : LocalStorage)
      (l₁ l₂ : List LocalCall) (c g : LocalCall) (k : StorageKey) (value : Bytes)
      (options : PutOptions) (blockId : Option UInt64) (m : LocalOut),
      MachineRun (localNext C) s₀ (l₁ ++ c :: (l₂ ++ [g])) s →
      (l₁ ++ c :: (l₂ ++ [g])).Pairwise (fun x y => x.input.1 ≤ y.input.1) →
      c.input.2.written = some (k, value, options, blockId) → c.out = .ok m →
      (∀ x ∈ l₂, x.input.2.rewrites = true → x.input.2.key ≠ k) → g.input.2 = .get k →
      options.ttlSeconds = 0 ∨ g.input.1.toInt < c.input.1.toInt + 1000 * options.ttlSeconds.toNat →
      ∃ v, g.out = .ok (.value (some v)) ∧ v.data = value := by
  intro h
  let ops : List (Int64 × LocalOp) :=
    [(0, .put ⟨"a", [1]⟩ [7] ⟨false, 10, none⟩), (9000, .put ⟨"a", [1]⟩ [8] ⟨false, 10, none⟩),
      (11000, .get ⟨"a", [1]⟩)]
  obtain ⟨v, hv, -⟩ := h sampleCrypto (.inMemory "node") _ ((callsOf ops).take 1) [] _ _ ⟨"a", [1]⟩
    [8] ⟨false, 10, none⟩ none _ (machineRun_trace _ _ ops) (by decide +kernel) rfl rfl
    (fun x hx => absurd hx not_mem_nil) rfl (.inr (by decide))
  have hn : ((callsOf ops).map Call.out)[2]? = some (.ok (.value none)) := by decide +kernel
  have hsm : ((callsOf ops).map Call.out)[2]? = some (.ok (.value (some v))) := congrArg some hv
  rw [hn] at hsm
  cases hsm

end Platform.Storage
