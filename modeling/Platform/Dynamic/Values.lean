import Platform.Chain.Types
import Platform.State.Persist

/-!
# Keys, values and entries (`crates/storage/src/types.rs`)

Values are trees; an entry is a value with the times it was written at.  Both are stored under
bincode, which writes the fields one after the other and reads back from the front.

* A JSON document is given by the bytes that bincode writes for it, since nothing looks into it; and
  an `f64` by its bits.
* A map is the list of its entries; `hashed` says that no key is there twice.
* A time is in nanoseconds since 1970, with the bound of the platform's clock.
-/

namespace Platform.Dynamic
open Platform.Core Lib List
open State (ChallengeId)

/-! ## keys -/

structure StorageKey where
  ns : String
  validator : Option Hotkey
  key : String
deriving DecidableEq

namespace StorageKey

def system (key : String) : StorageKey := ⟨"system", none, key⟩

def challenge (challengeId : ChallengeId) (key : String) : StorageKey :=
  ⟨challengeId.toText, none, key⟩

/-- `StorageKey::validator` -/
def ofValidator (challengeId : ChallengeId) (validator : Hotkey) (key : String) : StorageKey :=
  ⟨challengeId.toText, some validator, key⟩

def scope (k : StorageKey) : Bytes := (k.validator.map fun v => v.key.bytes).getD []

def toBytes (k : StorageKey) : Bytes := utf8 k.ns ++ 0 :: (k.scope ++ 0 :: utf8 k.key)

def namespacePrefix (ns : String) : Bytes := utf8 ns ++ [0]

end StorageKey

/-! ## values -/

inductive StorageValue where
  | bool (b : Bool)
  | u64 (n : UInt64)
  | i64 (n : Int64)
  | u128 (n : BitVec 128)
  | f64 (bits : UInt64)
  | string (s : String)
  | bytes (b : Bytes)
  | json (written : Bytes)
  | list (l : List StorageValue)
  | map (m : List (String × StorageValue))
  | null

/-- `HashMap::insert` on the list of the entries -/
def insertField {α : Type} (m : List (String × α)) (field : String) (value : α) :
    List (String × α) := m.filter (fun e => e.1 ≠ field) ++ [(field, value)]

namespace StorageValue

/-- `as_i64` -/
def asI64 : StorageValue → Option Int64
  | i64 n => some n
  | u64 n => if n.toNat < 2 ^ 63 then some n.toInt64 else none
  | _ => none

mutual

/-- Every value in the tree satisfies `p`. -/
def all (p : StorageValue → Bool) : StorageValue → Bool
  | list l => p (list l) && allList p l
  | map m => p (map m) && allMap p m
  | v => p v

def allList (p : StorageValue → Bool) : List StorageValue → Bool
  | [] => true
  | v :: l => all p v && allList p l

def allMap (p : StorageValue → Bool) : List (String × StorageValue) → Bool
  | [] => true
  | e :: m => all p e.2 && allMap p m

end

variable (p : StorageValue → Bool) (l : List StorageValue) (m : List (String × StorageValue))

include p l in
theorem allList_eq : allList p l = l.all (all p) := by
  induction l with
  | nil => rw [allList, all_nil]
  | cons v l ih => rw [allList, ih, all_cons]

include p m in
theorem allMap_eq : allMap p m = m.all fun e => all p e.2 := by
  induction m with
  | nil => rw [allMap, all_nil]
  | cons e m ih => rw [allMap, ih, all_cons]

include p l in
theorem all_list : all p (list l) = (p (list l) && l.all (all p)) := by
  rw [all, allList_eq]

include p m in
theorem all_map : all p (map m) = (p (map m) && m.all fun e => all p e.2) := by
  rw [all, allMap_eq]

def notJson : StorageValue → Bool
  | json _ => false
  | _ => true

def jsonFree (v : StorageValue) : Bool := v.all notJson

/-- no key twice here -/
def keysOnce : StorageValue → Bool
  | map m => decide (m.map Prod.fst).Nodup
  | _ => true

def hashed (v : StorageValue) : Bool := v.all keysOnce

theorem jsonFree_list (l : List StorageValue) : (list l).jsonFree = l.all jsonFree :=
  all_list notJson l

theorem jsonFree_map (m : List (String × StorageValue)) :
    (map m).jsonFree = m.all fun e => e.2.jsonFree := all_map notJson m

theorem hashed_list (l : List StorageValue) : (list l).hashed = l.all hashed := all_list keysOnce l

theorem hashed_map (m : List (String × StorageValue)) :
    (map m).hashed = (decide (m.map Prod.fst).Nodup && m.all fun e => e.2.hashed) :=
  all_map keysOnce m

def Plain (v : StorageValue) : Prop := v.hashed = true ∧ v.jsonFree = true

end StorageValue

/-! ## the layout of values -/

section
open BinCodec

def deserializeAny : DecodeError :=
  .custom "Bincode does not support the serde::Deserializer::deserialize_any method"

namespace StorageValue

def index : StorageValue → Nat
  | bool _ => 0
  | u64 _ => 1
  | i64 _ => 2
  | u128 _ => 3
  | f64 _ => 4
  | string _ => 5
  | bytes _ => 6
  | json _ => 7
  | list _ => 8
  | map _ => 9
  | null => 10

/-- `u128` -/
def wide : BinCodec (BitVec 128) := uint 16 (.ofNat 128) BitVec.toNat

mutual

/-- what follows the index -/
def body : StorageValue → Bytes
  | bool b => BinCodec.bool.ser b
  | u64 n => BinCodec.u64.ser n
  | i64 n => BinCodec.i64.ser n
  | u128 n => wide.ser n
  | f64 bits => BinCodec.u64.ser bits
  | string s => BinCodec.string.ser s
  | bytes b => BinCodec.bytes.ser b
  | json written => written
  | list l => leBytes 8 l.length ++ bodyList l
  | map m => leBytes 8 m.length ++ bodyMap m
  | null => []

def bodyList : List StorageValue → Bytes
  | [] => []
  | v :: l => (leBytes 4 v.index ++ body v) ++ bodyList l

def bodyMap : List (String × StorageValue) → Bytes
  | [] => []
  | e :: m => (BinCodec.string.ser e.1 ++ (leBytes 4 e.2.index ++ body e.2)) ++ bodyMap m

end

def variant (r : Reader StorageValue) : Nat → Reader StorageValue
  | 0 => BinCodec.bool.de.map bool
  | 1 => BinCodec.u64.de.map u64
  | 2 => BinCodec.i64.de.map i64
  | 3 => wide.de.map u128
  | 4 => BinCodec.u64.de.map f64
  | 5 => BinCodec.string.de.map string
  | 6 => BinCodec.bytes.de.map bytes
  | 7 => fun _ => .error deserializeAny
  | 8 => (BinCodec.list ⟨fun v => leBytes 4 v.index ++ body v, r⟩).de.map list
  | 9 => (BinCodec.list (pair BinCodec.string ⟨fun v => leBytes 4 v.index ++ body v, r⟩)).de.map
      fun l => map (l.foldl (fun m e => insertField m e.1 e.2) [])
  | _ => fun bs => .ok (null, bs)

/-- The reader goes down `fuel` levels.  A level takes four bytes, so that the length of the bytes
is always enough. -/
def reader : Nat → Reader StorageValue
  | 0 => fun _ => .error .unexpectedEof
  | fuel + 1 => (enumeration index 11 body (variant (reader fuel))).de

end StorageValue

def valueLayout : BinCodec StorageValue where
  ser v := leBytes 4 v.index ++ v.body
  de bs := StorageValue.reader bs.length bs

/-! ## reading values back -/

namespace StorageValue

theorem bodyList_eq (l : List StorageValue) : bodyList l = l.flatMap valueLayout.ser := by
  induction l with
  | nil => rw [bodyList, flatMap_nil]
  | cons v l ih =>
    rw [bodyList, ih]
    rfl

theorem bodyMap_eq (m : List (String × StorageValue)) :
    bodyMap m = m.flatMap (pair BinCodec.string valueLayout).ser := by
  induction m with
  | nil => rw [bodyMap, flatMap_nil]
  | cons e m ih =>
    rw [bodyMap, ih]
    rfl

theorem index_lt (v : StorageValue) : v.index < 11 := by
  cases v <;> simp [index]

theorem length_ser (v : StorageValue) : (valueLayout.ser v).length = 4 + v.body.length := by
  simp [valueLayout]

theorem pos_ser (v : StorageValue) : 0 < (valueLayout.ser v).length := by
  rw [length_ser]
  omega

theorem pos_pair (e : String × StorageValue) :
    0 < ((pair BinCodec.string valueLayout).ser e).length := by
  show 0 < (BinCodec.string.ser e.1 ++ valueLayout.ser e.2).length
  have hp := pos_ser e.2
  rw [length_append]
  omega

end StorageValue

theorem foldl_insertField {α : Type} {m : List (String × α)} (hm : (m.map Prod.fst).Nodup)
    (done : List (String × α)) (hdn : ∀ e ∈ done, e.1 ∉ m.map Prod.fst) :
    m.foldl (fun m e => insertField m e.1 e.2) done = done ++ m := by
  induction m generalizing done with
  | nil => rw [foldl_nil, append_nil]
  | cons e m ih =>
    obtain ⟨he, hm⟩ := nodup_cons.mp hm
    have hk : done.filter (fun d => d.1 ≠ e.1) = done := by
      rw [filter_eq_self]
      intro d hd
      have hne := hdn d hd
      rw [map_cons, mem_cons, not_or] at hne
      exact decide_eq_true hne.1
    have his : insertField done e.1 e.2 = done ++ [e] := by
      rw [insertField, hk]
    rw [foldl_cons, his, ih hm]
    · rw [append_assoc, singleton_append]
    · intro d hd
      rcases mem_append.mp hd with hd | hd
      · exact fun hmm => hdn d hd (mem_cons_of_mem _ hmm)
      · rw [mem_singleton.mp hd]
        exact he

namespace StorageValue

theorem lawful_wide : wide.Lawful :=
  lawful_uint (by decide) (fun n => lt_of_lt_of_eq n.isLt (by norm_num)) fun n => by simp

def ReadBy (r : Reader StorageValue) (v : StorageValue) : Prop :=
  ∀ rest, r (valueLayout.ser v ++ rest) =
    if v.jsonFree then .ok (v, rest) else .error deserializeAny

theorem variant_list {r : Reader StorageValue} {l : List StorageValue} (h : ∀ v ∈ l, ReadBy r v)
    (hl : l.length < 2 ^ 64) (rest : Bytes) :
    variant r 8 ((list l).body ++ rest) =
      if (list l).jsonFree then .ok (list l, rest) else .error deserializeAny := by
  have hbd : (list l).body = (BinCodec.list ⟨valueLayout.ser, r⟩).ser l := by
    rw [body, bodyList_eq]
    rfl
  have hvr : variant r 8 = (BinCodec.list ⟨valueLayout.ser, r⟩).de.map list := rfl
  rw [hvr, Reader.map, hbd, de_list_spec jsonFree deserializeAny h hl, jsonFree_list]
  cases l.all jsonFree with
  | false => rfl
  | true => rfl

theorem variant_map {r : Reader StorageValue} {m : List (String × StorageValue)}
    (h : ∀ e ∈ m, (BinCodec.string.ser e.1).length < 2 ^ 64 ∧ ReadBy r e.2)
    (hk : (m.map Prod.fst).Nodup) (hl : m.length < 2 ^ 64) (rest : Bytes) :
    variant r 9 ((map m).body ++ rest) =
      if (map m).jsonFree then .ok (map m, rest) else .error deserializeAny := by
  have hbd : (map m).body = (BinCodec.list (pair BinCodec.string ⟨valueLayout.ser, r⟩)).ser m := by
    rw [body, bodyMap_eq]
    rfl
  have him : ∀ e ∈ m, ∀ rest, (pair BinCodec.string ⟨valueLayout.ser, r⟩).de
      ((pair BinCodec.string ⟨valueLayout.ser, r⟩).ser e ++ rest) =
        if e.2.jsonFree then .ok (e, rest) else .error deserializeAny := by
    intro e he rest
    obtain ⟨hsr, hvl⟩ := h e he
    have hfr := lawful_string.reads e.1 (valueLayout.ser e.2 ++ rest) hsr
    rw [show (pair BinCodec.string ⟨valueLayout.ser, r⟩).ser e ++ rest =
      BinCodec.string.ser e.1 ++ (valueLayout.ser e.2 ++ rest) from append_assoc _ _ _,
      de_pair_of_ok hfr]
    show Except.map _ (r (valueLayout.ser e.2 ++ rest)) = _
    rw [hvl rest]
    cases e.2.jsonFree with
    | false => rfl
    | true => rfl
  have hcl := foldl_insertField hk [] fun _ hm => nomatch hm
  have hvr : variant r 9 = (BinCodec.list (pair BinCodec.string ⟨valueLayout.ser, r⟩)).de.map
      fun l => map (l.foldl (fun m e => insertField m e.1 e.2) []) := rfl
  rw [hvr, Reader.map, hbd, de_list_spec (fun e => e.2.jsonFree) deserializeAny him hl,
    jsonFree_map]
  cases m.all fun e => e.2.jsonFree with
  | false => rfl
  | true =>
    show Except.ok (map (m.foldl (fun m e => insertField m e.1 e.2) []), rest) = _
    rw [hcl]
    rfl

/-- **A value is read back**, whatever follows, unless there is JSON in it. -/
theorem reader_spec (fuel : Nat) {v : StorageValue} (hv : v.hashed = true)
    (hfl : (valueLayout.ser v).length ≤ fuel) (h64 : (valueLayout.ser v).length < 2 ^ 64) :
    ReadBy (reader fuel) v := by
  induction fuel generalizing v with
  | zero =>
    rw [length_ser] at hfl
    omega
  | succ fuel ih =>
    intro rest
    rw [length_ser] at hfl h64
    refine (de_enumeration (by decide) v.index_lt rest).trans ?_
    have hbd : v.body.length < 2 ^ 64 := by omega
    cases v with
    | bool b => exact lawful_bool.reads_variant rfl rfl rfl hbd
    | u64 n | f64 bits => exact lawful_u64.reads_variant rfl rfl rfl hbd
    | i64 n => exact lawful_i64.reads_variant rfl rfl rfl hbd
    | u128 n => exact lawful_wide.reads_variant rfl rfl rfl hbd
    | string s => exact lawful_string.reads_variant rfl rfl rfl hbd
    | bytes b => exact lawful_bytes.reads_variant rfl rfl rfl hbd
    | json written => rfl
    | null => rfl
    | list l =>
      rw [body, length_append, bodyList_eq] at hfl hbd
      rw [hashed_list, all_eq_true] at hv
      refine variant_list ?_ ?_ rest
      · intro x hx
        have hl : (valueLayout.ser x).length ≤ (l.flatMap valueLayout.ser).length :=
          length_ser_le_flatMap hx
        exact ih (hv x hx) (by omega) (by omega)
      · have hcn := length_le_flatMap pos_ser l
        omega
    | map m =>
      rw [body, length_append, bodyMap_eq] at hfl hbd
      rw [hashed_map, Bool.and_eq_true, all_eq_true] at hv
      refine variant_map ?_ (of_decide_eq_true hv.1) ?_ rest
      · intro e he
        have hl : ((pair BinCodec.string valueLayout).ser e).length ≤
            (m.flatMap (pair BinCodec.string valueLayout).ser).length := length_ser_le_flatMap he
        rw [show (pair BinCodec.string valueLayout).ser e =
          BinCodec.string.ser e.1 ++ valueLayout.ser e.2 from rfl, length_append] at hl
        exact ⟨by omega, ih (hv.2 e he) (by omega) (by omega)⟩
      · have hcn := length_le_flatMap pos_pair m
        omega

end StorageValue

theorem de_valueLayout {v : StorageValue} (hv : v.hashed = true)
    (h64 : (valueLayout.ser v).length < 2 ^ 64) (rest : Bytes) :
    valueLayout.de (valueLayout.ser v ++ rest) =
      if v.jsonFree then .ok (v, rest) else .error deserializeAny := by
  refine StorageValue.reader_spec _ hv ?_ h64 rest
  rw [length_append]
  exact Nat.le_add_right _ _

end

/-! ## times and entries -/

structure SystemTime where
  nanos : Nat
  lt : nanos < 2 ^ 63 * 10 ^ 9
deriving DecidableEq

/-- the time at a number of seconds -/
def SystemTime.ofSecs (n : UInt32) : SystemTime :=
  ⟨n.toNat * 10 ^ 9, Nat.mul_lt_mul_of_pos_right (Nat.lt_trans n.toNat_lt (by decide)) (by decide)⟩

/-- `Duration`: nanoseconds, in seconds of a `u64` -/
structure Duration where
  nanos : Nat
  lt : nanos < 2 ^ 64 * 10 ^ 9
deriving DecidableEq

structure StorageEntry where
  value : StorageValue
  createdAt : SystemTime
  modifiedAt : SystemTime
  ttl : Option Duration
  version : UInt64
  writer : Option Hotkey

namespace StorageEntry

def new (now : SystemTime) (value : StorageValue) (writer : Option Hotkey) : StorageEntry where
  value := value
  createdAt := now
  modifiedAt := now
  ttl := none
  version := 1
  writer := writer

def isExpired (now : SystemTime) (e : StorageEntry) : Bool :=
  match e.ttl with
  | some ttl => decide (ttl.nanos < now.nanos - e.createdAt.nanos)
  | none => false

def update (now : SystemTime) (e : StorageEntry) (value : StorageValue) (writer : Option Hotkey) :
    StorageEntry :=
  { e with
    value := value
    modifiedAt := now
    version := e.version + 1
    writer := writer }

end StorageEntry

section
open BinCodec

/-- seconds as a `u64` and the rest as a `u32` -/
def secsNanos (n : Nat) : UInt64 × UInt32 := (.ofNat (n / 10 ^ 9), .ofNat (n % 10 ^ 9))

/-- the rest can carry over -/
def joinNanos (p : UInt64 × UInt32) : Nat := p.1.toNat * 10 ^ 9 + p.2.toNat

theorem joinNanos_secsNanos {n : Nat} (h : n < 2 ^ 64 * 10 ^ 9) : joinNanos (secsNanos n) = n := by
  have hsc : n / 10 ^ 9 < 2 ^ 64 := by omega
  have hr : n % 10 ^ 9 < 2 ^ 32 := by omega
  unfold joinNanos secsNanos
  rw [UInt64.toNat_ofNat_of_lt' hsc, UInt32.toNat_ofNat_of_lt' hr]
  omega

def timeLayout : BinCodec SystemTime :=
  through (pair u64 u32) (fun t => secsNanos t.nanos) fun p =>
    if h : joinNanos p < 2 ^ 63 * 10 ^ 9 then .ok ⟨joinNanos p, h⟩
    else if joinNanos p < 2 ^ 64 * 10 ^ 9 then .error (.custom "overflow deserializing SystemTime")
    else .error (.custom "overflow deserializing SystemTime epoch offset")

def durationLayout : BinCodec Duration :=
  through (pair u64 u32) (fun d => secsNanos d.nanos) fun p =>
    if h : joinNanos p < 2 ^ 64 * 10 ^ 9 then .ok ⟨joinNanos p, h⟩
    else .error (.custom "overflow deserializing Duration")

/-- the fields of an entry after its value -/
def metadataLayout :
    BinCodec (SystemTime × SystemTime × Option Duration × UInt64 × Option Hotkey) :=
  pair timeLayout (pair timeLayout (pair (option durationLayout)
    (pair u64 (option Platform.Chain.Layout.hotkey))))

def StorageEntry.metadata (e : StorageEntry) :
    SystemTime × SystemTime × Option Duration × UInt64 × Option Hotkey :=
  (e.createdAt, e.modifiedAt, e.ttl, e.version, e.writer)

def entryLayout : BinCodec StorageEntry :=
  iso (pair valueLayout metadataLayout) (fun e => (e.value, e.metadata))
    fun (v, c, m, t, n, w) => ⟨v, c, m, t, n, w⟩

theorem lawful_timeLayout : timeLayout.Lawful := by
  refine lawful_through (lawful_pair lawful_u64 lawful_u32) ?_
  intro t
  have hj := joinNanos_secsNanos (n := t.nanos) (by have := t.lt; omega)
  rw [dif_pos (by rw [hj]; exact t.lt)]
  simp only [hj]

theorem lawful_durationLayout : durationLayout.Lawful := by
  refine lawful_through (lawful_pair lawful_u64 lawful_u32) ?_
  intro d
  have hj := joinNanos_secsNanos d.lt
  rw [dif_pos (by rw [hj]; exact d.lt)]
  simp only [hj]

theorem lawful_metadataLayout : metadataLayout.Lawful :=
  lawful_pair lawful_timeLayout (lawful_pair lawful_timeLayout
    (lawful_pair (lawful_option lawful_durationLayout) (lawful_pair lawful_u64
      (lawful_option Platform.Chain.Layout.lawful_hotkey))))

theorem ser_entryLayout (e : StorageEntry) :
    entryLayout.ser e = valueLayout.ser e.value ++ metadataLayout.ser e.metadata := rfl

/-- **An entry is read back**, unless there is JSON in its value. -/
theorem deserialize_entry {e : StorageEntry} (he : e.value.hashed = true)
    (h64 : (entryLayout.ser e).length < 2 ^ 64) :
    entryLayout.deserialize (entryLayout.ser e) =
      if e.value.jsonFree then .ok e else .error deserializeAny := by
  rw [ser_entryLayout, length_append] at h64
  have hvl := de_valueLayout he (by omega) (metadataLayout.ser e.metadata)
  have hm := lawful_metadataLayout.reads e.metadata [] (by omega)
  rw [append_nil] at hm
  rw [entryLayout, deserialize_iso, ← entryLayout, ser_entryLayout]
  unfold BinCodec.deserialize
  cases hj : e.value.jsonFree with
  | false =>
    rw [hj] at hvl
    rw [de_pair_of_error hvl]
    rfl
  | true =>
    rw [hj] at hvl
    rw [de_pair_of_ok hvl, hm]
    rfl

theorem deserialize_value_of_entry {e : StorageEntry} (he : e.value.hashed = true)
    (h64 : (entryLayout.ser e).length < 2 ^ 64) :
    valueLayout.deserialize (entryLayout.ser e) =
      if e.value.jsonFree then .ok e.value else .error deserializeAny := by
  rw [ser_entryLayout, length_append] at h64
  rw [BinCodec.deserialize, ser_entryLayout, de_valueLayout he (by omega)]
  cases e.value.jsonFree with
  | false => rfl
  | true => rfl

theorem deserialize_entry_of_value {v : StorageValue} (hv : v.Plain)
    (h64 : (valueLayout.ser v).length < 2 ^ 64) :
    entryLayout.deserialize (valueLayout.ser v) = .error .unexpectedEof := by
  have hvl := de_valueLayout hv.1 h64 []
  rw [append_nil, hv.2] at hvl
  rw [entryLayout, deserialize_iso]
  unfold BinCodec.deserialize
  rw [de_pair_of_ok hvl]
  rfl

end

end Platform.Dynamic
