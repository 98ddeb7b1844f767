import Platform.Dynamic.Cache
import Platform.Lib.Fields

/-!
# Scans of a challenge

A key is written as its namespace, its validator and its name with zero bytes between them, and a
scan reads it back through a lossy decoding and a split at the zeros.  A hotkey is arbitrary bytes:
it comes back as a hotkey only when its bytes up to the first zero decode to a text of 32 bytes.
Otherwise the key is taken for one of the challenge itself.
-/

namespace Platform.Dynamic
open Platform.Core Lib List StorageKey
open scoped Lib.Bytewise
open State (ChallengeId notMem_hexChars uuidGroups)

/-! ## keys in parts -/

theorem hexDigit_ne_zero : ∀ n < 16, hexDigit n ≠ '\x00' := by decide

theorem zero_notMem_toText (c : ChallengeId) : 0 ∉ utf8 c.toText := by
  rw [zero_mem_utf8, ChallengeId.toText]
  simp [uuidGroups, intercalate, intersperse, notMem_hexChars hexDigit_ne_zero]

/-- The first part of a key after its namespace decodes to a text as long as a hotkey. -/
def ReadsAsHotkey (part : Bytes) : Prop := (utf8 (fromUtf8Lossy part)).length = 32

instance (part : Bytes) : Decidable (ReadsAsHotkey part) := inferInstanceAs (Decidable (_ = _))

/-- what stands after the namespace, up to the next zero -/
def firstPart (ns : String) (k : Bytes) : Bytes :=
  (k.drop (namespacePrefix ns).length).takeWhile (· ≠ 0)

section
variable {ns : String} {x y k b : Bytes}

theorem firstPart_parts (hx : 0 ∉ x) : firstPart ns (utf8 ns ++ 0 :: (x ++ 0 :: y)) = x := by
  have hdr : (utf8 ns ++ 0 :: (x ++ 0 :: y)).drop (namespacePrefix ns).length = x ++ 0 :: y := by
    have hap : utf8 ns ++ 0 :: (x ++ 0 :: y) = namespacePrefix ns ++ (x ++ 0 :: y) := by
      rw [namespacePrefix, append_assoc]
      rfl
    rw [hap, drop_left]
  rw [firstPart, hdr, takeWhile_append_of_pos]
  · simp
  · intro a ha
    exact decide_eq_true fun hz => hx (hz ▸ ha)

/-- the name that is read after the first part -/
def lastName (y : Bytes) : String :=
  .ofList (((lossyChars y).splitOn '\x00').getLast (splitOn_ne_nil _ _))

theorem lastName_utf8 {name : String} (hnm : 0 ∉ utf8 name) : lastName (utf8 name) = name := by
  have hsp : (lossyChars (utf8 name)).splitOn '\x00' = [name.toList] := by
    rw [lossyChars_utf8]
    exact splitOn_eq_singleton fun h => hnm (zero_mem_utf8.mpr h)
  have hls : ∀ (l : List (List Char)) (hl : l ≠ []), l = [name.toList] →
      String.ofList (l.getLast hl) = name := by
    intro l hl heq
    subst heq
    exact String.ofList_toList
  exact hls _ _ hsp

theorem parseKey_parts (hns : 0 ∉ utf8 ns) (hx : 0 ∉ x) :
    parseKey (utf8 ns ++ 0 :: (x ++ 0 :: y)) =
      some ⟨ns, if lossyChars x ≠ [] then parseValidator (lossyChars x) else none, lastName y⟩ := by
  have hpr : (lossyChars (utf8 ns ++ 0 :: (x ++ 0 :: y))).splitOn '\x00' =
      ns.toList :: lossyChars x :: (lossyChars y).splitOn '\x00' := by
    rw [lossyChars_append_zero hns, lossyChars_append_zero hx, lossyChars_utf8,
      splitOn_append_cons_self_of_not_mem fun h => hns (zero_mem_utf8.mpr h),
      splitOn_append_cons_self_of_not_mem (zero_notMem_lossyChars hx)]
  have hr : (lossyChars y).splitOn '\x00' ≠ [] := splitOn_ne_nil _ _
  unfold parseKey
  rw [hpr]
  dsimp only
  rw [String.ofList_toList, getLast_cons hr]
  simp only [hr, ne_eq, not_false_eq_true, true_and]
  rfl

theorem validator_isNone_iff :
    (if lossyChars x ≠ [] then parseValidator (lossyChars x) else none).isNone = true ↔
      ¬ ReadsAsHotkey x := by
  by_cases hnl : lossyChars x = []
  · rw [ReadsAsHotkey, fromUtf8Lossy, hnl]
    decide
  · rw [if_pos hnl, parseValidator]
    show _ ↔ ¬ (partBytes (lossyChars x)).length = 32
    split
    · next h => simp [h]
    · next h => simp [h]

end

/-! ## keys of a challenge -/

def StorageKey.AtChallenge (c : ChallengeId) (key : StorageKey) : Prop :=
  key.ns = c.toText ∧ key.validator = none

instance (c : ChallengeId) (key : StorageKey) : Decidable (key.AtChallenge c) :=
  inferInstanceAs (Decidable (_ ∧ _))

def StorageKey.CleanName (key : StorageKey) : Prop :=
  ∀ c, key.AtChallenge c → 0 ∉ utf8 key.key

section
variable {s : DynamicStorage} {now : SystemTime} {c : ChallengeId} {key : StorageKey}
  {k data : Bytes} {e : StorageEntry} {name : String}

theorem StorageKey.AtChallenge.eq (h : key.AtChallenge c) : key = .challenge c key.key := by
  obtain ⟨ns, who, name⟩ := key
  obtain ⟨rfl, rfl⟩ := h
  rfl

theorem toBytes_challenge (c : ChallengeId) (name : String) :
    (challenge c name).toBytes = utf8 c.toText ++ 0 :: ([] ++ 0 :: utf8 name) := rfl

theorem count_toBytes (key : StorageKey) :
    key.toBytes.count 0 =
      (utf8 key.ns).count 0 + key.scope.count 0 + (utf8 key.key).count 0 + 2 := by
  rw [toBytes, count_append, count_cons_self, count_append, count_cons_self]
  omega

theorem validator_of_scope (h : key.scope = []) : key.validator = none := by
  unfold scope at h
  cases hv : key.validator with
  | none => rfl
  | some v =>
    rw [hv] at h
    have hl := congrArg length h
    rw [Option.map_some, Option.getD_some, v.key.len] at hl
    cases hl

theorem atChallenge_of_toBytes (hnm : 0 ∉ utf8 name)
    (h : key.toBytes = (challenge c name).toBytes) : key.AtChallenge c := by
  have hns := zero_notMem_toText c
  have hcn := congrArg (count 0) h
  rw [count_toBytes, count_toBytes] at hcn
  have hn : (utf8 (challenge c name).ns).count 0 = 0 := count_eq_zero_of_not_mem hns
  have hnm' : (utf8 (challenge c name).key).count 0 = 0 := count_eq_zero_of_not_mem hnm
  have hsc' : (challenge c name).scope.count 0 = 0 := rfl
  have hk : 0 ∉ utf8 key.ns := count_eq_zero.mp (by omega)
  have hky : 0 ∉ key.scope := count_eq_zero.mp (by omega)
  obtain ⟨hnq, hr⟩ := append_cons_inj hk hns h
  obtain ⟨hsc, _⟩ := append_cons_inj hky not_mem_nil hr
  exact ⟨utf8_inj hnq, validator_of_scope hsc⟩

theorem parts_in_namespace (h : namespacePrefix c.toText <+: key.toBytes) :
    ∃ x y, key.toBytes = utf8 c.toText ++ 0 :: (x ++ 0 :: y) ∧ 0 ∉ x := by
  obtain ⟨b, hb⟩ := h
  rw [namespacePrefix, append_assoc] at hb
  have hb : utf8 c.toText ++ 0 :: b = key.toBytes := hb
  have hcn := congrArg (count 0) hb
  rw [count_toBytes, count_append, count_cons_self,
    count_eq_zero_of_not_mem (zero_notMem_toText c)] at hcn
  have hm : 0 ∈ b := count_pos_iff.mp (by omega)
  obtain ⟨x, y, rfl, hx⟩ := eq_append_cons_of_mem hm
  exact ⟨x, y, hb.symm, hx⟩

/-! ## what a scan returns -/

/-- **Unexpired content**: every key in the tree is that of a `StorageKey`, with an unexpired entry
without JSON. -/
def Content (now : SystemTime) (s : DynamicStorage) : Prop :=
  ∀ k data, s.tree.get k = some data → ∃ key e, k = toBytes key ∧ key.CleanName ∧
    Holds data e ∧ e.isExpired now = false

def listed (item : Bytes × Bytes) : Option (String × StorageEntry) :=
  (parseKey item.1).bind fun key =>
    if key.validator.isNone then (readEntry item.2).toOption.map fun e => (key.key, e) else none

theorem scanLoop_eq {its : List (Bytes × Bytes)}
    (h : ∀ item ∈ its, ∃ e, readEntry item.2 = .ok e ∧ e.isExpired now = false) :
    scanLoop now its = .ok (its.filterMap fun item =>
      (parseKey item.1).bind fun key => (readEntry item.2).toOption.map fun e => (key, e)) := by
  induction its with
  | nil => rfl
  | cons item its ih =>
    obtain ⟨k, data⟩ := item
    obtain ⟨e, hr, hfr⟩ := h _ mem_cons_self
    rw [scanLoop, hr]
    dsimp only
    rw [ih fun item him => h item (mem_cons_of_mem _ him)]
    rw [hfr, filterMap_cons, hr]
    cases parseKey k with
    | none => rfl
    | some key => rfl

theorem scanChallenge_eq (h : Content now s) (c : ChallengeId) :
    s.scanChallenge now c = .ok ((s.scanPrefix (namespacePrefix c.toText)).filterMap listed) := by
  unfold DynamicStorage.scanChallenge DynamicStorage.scanNamespace
  rw [scanLoop_eq]
  · show Except.ok _ = _
    dsimp only
    rw [filter_filterMap, map_filterMap]
    refine congrArg Except.ok (filterMap_congr fun item _ => ?_)
    unfold listed
    cases parseKey item.1 with
    | none => rfl
    | some key =>
      cases (readEntry item.2).toOption with
      | none => simp
      | some e =>
        show Option.map _ (Option.filter _ (some (key, e))) = _
        cases hv : key.validator with
        | none | some v => simp [Option.filter, hv]
  · intro item him
    have hg := OrdMap.get_eq_some.mpr (mem_filter.mp him).1
    obtain ⟨_, e, _, _, hh, hfr⟩ := h _ _ hg
    exact ⟨e, hh.read, hfr⟩

theorem listed_parts {x y : Bytes} (hx : 0 ∉ x) (hdt : Holds data e) :
    listed (utf8 c.toText ++ 0 :: (x ++ 0 :: y), data) =
      if ReadsAsHotkey x then none else some (lastName y, e) := by
  unfold listed
  rw [parseKey_parts (zero_notMem_toText c) hx, hdt.read]
  by_cases h : ReadsAsHotkey x
  · rw [if_pos h, Option.bind_some, if_neg fun hn => validator_isNone_iff.mp hn h]
  · rw [if_neg h, Option.bind_some, if_pos (validator_isNone_iff.mpr h)]
    rfl

theorem listed_challenge (hnm : 0 ∉ utf8 name) (hdt : Holds data e) :
    listed ((challenge c name).toBytes, data) = some (name, e) := by
  rw [toBytes_challenge, listed_parts not_mem_nil hdt, if_neg (by decide), lastName_utf8 hnm]

def AtName (s : DynamicStorage) (c : ChallengeId) (name : String) (e : StorageEntry) : Prop :=
  0 ∉ utf8 name ∧
    ∃ data, s.tree.get (challenge c name).toBytes = some data ∧ Holds data e

/-- The scan returns the keys of the challenge itself with their entries, each once. -/
def ExactScan (now : SystemTime) (s : DynamicStorage) (c : ChallengeId) : Prop :=
  ∃ l, s.scanChallenge now c = .ok l ∧ l.Nodup ∧ ∀ name e, (name, e) ∈ l ↔ AtName s c name e

def OthersRead (s : DynamicStorage) (c : ChallengeId) : Prop :=
  ∀ key : StorageKey, (s.tree.get key.toBytes).isSome = true →
    namespacePrefix c.toText <+: key.toBytes → ¬ key.AtChallenge c →
    ReadsAsHotkey (firstPart c.toText key.toBytes)

theorem atChallenge_of_listed (h : Content now s) (hoh : OthersRead s c)
    {item : Bytes × Bytes} (him : item ∈ s.scanPrefix (namespacePrefix c.toText))
    (hls : listed item = some (name, e)) :
    0 ∉ utf8 name ∧ item.1 = (challenge c name).toBytes ∧ Holds item.2 e := by
  obtain ⟨k, data⟩ := item
  obtain ⟨hg, hsr⟩ := mem_scanPrefix.mp him
  obtain ⟨key, e', rfl, hcl, hh, _⟩ := h _ _ hg
  have hat : key.AtChallenge c := by
    by_contra hnt
    obtain ⟨x, y, hby, hx⟩ := parts_in_namespace hsr
    have hr := hoh key (by rw [hg]; rfl) hsr hnt
    rw [hby, firstPart_parts hx] at hr
    rw [hby, listed_parts hx hh, if_pos hr] at hls
    cases hls
  rw [hat.eq, listed_challenge (hcl c hat) hh] at hls
  cases hls
  exact ⟨hcl c hat, congrArg toBytes hat.eq, hh⟩

theorem listed_of_atName (hat : AtName s c name e) :
    ∃ item ∈ s.scanPrefix (namespacePrefix c.toText),
      item.1 = (challenge c name).toBytes ∧ listed item = some (name, e) := by
  obtain ⟨hnm, data, hg, hh⟩ := hat
  refine ⟨(_, data), mem_scanPrefix.mpr ⟨hg, ?_⟩, rfl, listed_challenge hnm hh⟩
  exact namespacePrefix_toBytes (.challenge c name)

theorem eq_of_listed {its : List (Bytes × Bytes)} (hnd : (its.filterMap listed).Nodup)
    {item item' : Bytes × Bytes} (him : item ∈ its) (him' : item' ∈ its)
    {r : String × StorageEntry} (h : listed item = some r) (h' : listed item' = some r) :
    item = item' := by
  by_contra hne
  have hpr := pairwise_filterMap.mp hnd
  have : Std.Symm fun a a' : Bytes × Bytes =>
      ∀ b, listed a = some b → ∀ b', listed a' = some b' → b ≠ b' :=
    ⟨fun a a' hab b hb b' hb' => (hab b' hb' b hb).symm⟩
  exact hpr.forall him him' hne r h r h' rfl

/-- **Exact scans**: a scan of a challenge is exact if and only if all other keys in its namespace
read as keys of a validator. -/
theorem challenge_scan_iff (h : Content now s) (c : ChallengeId) :
    ExactScan now s c ↔ OthersRead s c := by
  unfold ExactScan
  rw [scanChallenge_eq h c]
  constructor
  · intro ⟨l, hl, hnd, hex⟩ key hsm hsr hnt
    obtain rfl := Except.ok.inj hl
    obtain ⟨data, hg⟩ := Option.isSome_iff_exists.mp hsm
    obtain ⟨_, e, _, _, hh, _⟩ := h _ _ hg
    obtain ⟨x, y, hby, hx⟩ := parts_in_namespace hsr
    rw [hby, firstPart_parts hx]
    by_contra hread
    -- the key is listed, so there is one of the challenge with the same name and entry
    have him : (key.toBytes, data) ∈ s.scanPrefix (namespacePrefix c.toText) :=
      mem_scanPrefix.mpr ⟨hg, hsr⟩
    have hls : listed (key.toBytes, data) = some (lastName y, e) := by
      rw [hby, listed_parts hx hh, if_neg hread]
    have hat := (hex _ _).mp (mem_filterMap.mpr ⟨_, him, hls⟩)
    obtain ⟨item, him', hk, hls'⟩ := listed_of_atName hat
    have hs := eq_of_listed hnd him him' hls hls'
    rw [← hs] at hk
    exact hnt (atChallenge_of_toBytes hat.1 hk)
  · intro hoh
    refine ⟨_, rfl, ?_, ?_⟩
    · have hst : (s.scanPrefix (namespacePrefix c.toText)).Pairwise
          fun a b => a.1 < b.1 := s.tree.sorted.filter _
      refine pairwise_filterMap.mpr (hst.imp_of_mem ?_)
      intro item item' him him' hlt r hr r' hr' heq
      obtain rfl := heq
      have hk := (atChallenge_of_listed h hoh him hr).2.1
      have hk' := (atChallenge_of_listed h hoh him' hr').2.1
      rw [hk, hk'] at hlt
      exact lt_irrefl _ hlt
    · intro name e
      rw [mem_filterMap]
      constructor
      · intro ⟨item, him, hls⟩
        obtain ⟨hnm, hk, hh⟩ := atChallenge_of_listed h hoh him hls
        have hg := (mem_scanPrefix.mp him).1
        rw [hk] at hg
        exact ⟨hnm, item.2, hg, hh⟩
      · intro hat
        obtain ⟨item, him, _, hls⟩ := listed_of_atName hat
        exact ⟨item, him, hls⟩

end

def someChallenge : ChallengeId := ⟨replicate 16 3, rfl⟩

/-- a hotkey of one byte, 32 times -/
def uniformHotkey (b : UInt8) : Hotkey := ⟨⟨replicate 32 b, length_replicate⟩⟩

def scannedTree (validator : Hotkey) : OrdMap Bytes Bytes :=
  ((∅ : OrdMap Bytes Bytes).insert (challenge someChallenge "a").toBytes
    (entryLayout.ser (.new (.ofSecs 5) (.u64 1) none))).insert
      (ofValidator someChallenge validator "b").toBytes
      (entryLayout.ser (.new (.ofSecs 5) (.u64 2) none))

def scanned (validator : Hotkey) : DynamicStorage :=
  { DynamicStorage.new true 10 with tree := scannedTree validator }

theorem content_scanned (who : Hotkey) : Content (.ofSecs 6) (scanned who) := by
  intro k data hg
  have hg : (scannedTree who).get k = some data := hg
  rw [scannedTree, OrdMap.get_insert] at hg
  split at hg
  · next hk =>
    cases hg
    refine ⟨_, _, hk, ?_, ⟨rfl, ⟨rfl, rfl⟩, by decide +kernel⟩, rfl⟩
    intro c hat
    exact nomatch hat.2
  · rw [OrdMap.get_insert] at hg
    split at hg
    · next hk =>
      cases hg
      refine ⟨_, _, hk, ?_, ⟨rfl, ⟨rfl, rfl⟩, by decide +kernel⟩, rfl⟩
      intro c _
      show 0 ∉ utf8 "a"
      decide
    · cases hg

/-- a hotkey that is the text of 32 letters -/
theorem challenge_scan_letters :
    ExactScan (.ofSecs 6) (scanned (uniformHotkey 120)) someChallenge := by
  refine (challenge_scan_iff (content_scanned _) someChallenge).mpr ?_
  intro key hsm _ hnt
  have hsm : ((scannedTree (uniformHotkey 120)).get key.toBytes).isSome = true := hsm
  rw [scannedTree, OrdMap.get_insert] at hsm
  split at hsm
  · next hk =>
    rw [hk]
    decide +kernel
  · rw [OrdMap.get_insert] at hsm
    split at hsm
    · next hk =>
      exact absurd (atChallenge_of_toBytes (by decide) hk) hnt
    · cases hsm

/-- A hotkey of 32 bytes `0xFF` decodes to a text of 96 bytes: the entry of the validator is
returned as one of the challenge. -/
theorem scan_returns_validator_entry :
    ((scanned (uniformHotkey 255)).scanChallenge (.ofSecs 6) someChallenge).map
        (map Prod.fst) = .ok ["a", "b"] ∧
      (scanned (uniformHotkey 255)).tree.get (challenge someChallenge "b").toBytes = none ∧
      ¬ ExactScan (.ofSecs 6) (scanned (uniformHotkey 255)) someChallenge := by
  have hnm : ((scanned (uniformHotkey 255)).scanChallenge (.ofSecs 6)
      someChallenge).map (map Prod.fst) = .ok ["a", "b"] := by decide +kernel
  have hn : (scanned (uniformHotkey 255)).tree.get
      (challenge someChallenge "b").toBytes = none := by decide +kernel
  refine ⟨hnm, hn, ?_⟩
  intro ⟨l, hl, _, hex⟩
  rw [hl] at hnm
  have hm : "b" ∈ l.map Prod.fst := by
    rw [Except.ok.inj hnm]
    decide
  obtain ⟨⟨name, e⟩, him, rfl⟩ := mem_map.mp hm
  obtain ⟨_, data, hg, _⟩ := (hex _ _).mp him
  rw [hn] at hg
  cases hg

end Platform.Dynamic
