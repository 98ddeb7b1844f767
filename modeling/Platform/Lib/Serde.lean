import Platform.Lib.Assoc
import Mathlib

/-!
# JSON documents and derived encodings

The data model of `serde_json`: how derived encodings put values into a JSON document and read them
back.  A document stands for its text; a number with a fraction is its decimal literal.

A codec may refuse to write (a map whose keys are no strings) and may read back something else (a
number that is rounded).  `Codec.RoundTrips c x`: the codec `c` writes `x` and reads `x` back.  Each
combinator has one lemma that says when it does, in terms of its parts:

* `Codec.map`                                  maps, with a codec for their keys;
* `Fields.cons`, `Fields.codec`                records, field by field.
-/

namespace Platform.Lib
open List

structure Decimal where
  mantissa : Int
  exponent : Int
deriving DecidableEq

inductive Json where
  | null
  | bool (b : Bool)
  | int (n : Int)
  | float (d : Decimal)
  | str (s : String)
  | arr (l : List Json)
  | obj (l : List (String × Json))

/-- A way to write values and to read them back.  `missing` is what an absent field stands for. -/
structure Codec (α : Type) where
  ser : α → Except String Json
  de : Json → Option α
  missing : Option α := none

section
variable {α β : Type}

/-- The value is written and read back as it was. -/
def Codec.RoundTrips (c : Codec α) (x : α) : Prop := ∃ j, c.ser x = .ok j ∧ c.de j = some x

theorem bind_eq_ok {ε : Type} {x : Except ε α} {f : α → Except ε β} {b : β} :
    (x >>= f) = .ok b ↔ ∃ a, x = .ok a ∧ f a = .ok b := by
  cases x with
  | error e | ok a => simp [bind, Except.bind]

theorem mapM_roundTrips (f : α → Except String β) (g : β → Option α) (l : List α) :
    (∃ ys, l.mapM f = .ok ys ∧ ys.mapM g = some l) ↔ ∀ x ∈ l, ∃ y, f x = .ok y ∧ g y = some x := by
  induction l with
  | nil => simp [pure, Except.pure]
  | cons x l ih =>
    rw [forall_mem_cons, ← ih]
    constructor
    · rintro ⟨ys, hys, hread⟩
      rw [mapM_cons, bind_eq_ok] at hys
      obtain ⟨y, hy, hys⟩ := hys
      obtain ⟨ys', hys', hcn⟩ := bind_eq_ok.mp hys
      obtain rfl : y :: ys' = ys := Except.ok.inj hcn
      rw [mapM_cons] at hread
      simp only [Option.bind_eq_bind, Option.bind_eq_some_iff, Option.pure_def, Option.some_inj,
        cons.injEq] at hread
      obtain ⟨x', hx', l', hl', rfl, rfl⟩ := hread
      exact ⟨⟨y, hy, hx'⟩, ys', hys', hl'⟩
    · rintro ⟨⟨y, hy, hx⟩, ys, hys, hread⟩
      refine ⟨y :: ys, ?_, ?_⟩
      · rw [mapM_cons, hy, hys]
        rfl
      · rw [mapM_cons, hx, hread]
        rfl

namespace Codec

/-! ## scalars -/

/-- unsigned integers below `bound` -/
def uint (bound : Nat) (ofNat : Nat → α) (toNat : α → Nat) : Codec α where
  ser x := .ok (.int (toNat x))
  de
    | .int n => if 0 ≤ n ∧ n < bound then some (ofNat n.toNat) else none
    | _ => none

theorem roundTrips_uint {bound : Nat} {ofNat : Nat → α} {toNat : α → Nat}
    (hlt : ∀ x, toNat x < bound) (hof : ∀ x, ofNat (toNat x) = x) (x : α) :
    (uint bound ofNat toNat).RoundTrips x := by
  refine ⟨_, rfl, ?_⟩
  have hbn : (0 : Int) ≤ toNat x ∧ (toNat x : Int) < bound := by
    have h := hlt x
    omega
  simp only [uint]
  rw [if_pos hbn, Int.toNat_natCast, hof]

def u8 : Codec UInt8 := uint (2 ^ 8) .ofNat UInt8.toNat
def u16 : Codec UInt16 := uint (2 ^ 16) .ofNat UInt16.toNat
def u32 : Codec UInt32 := uint (2 ^ 32) .ofNat UInt32.toNat
def u64 : Codec UInt64 := uint (2 ^ 64) .ofNat UInt64.toNat

@[simp] theorem roundTrips_u8 (x : UInt8) : u8.RoundTrips x :=
  roundTrips_uint UInt8.toNat_lt (fun _ => UInt8.ofNat_toNat) x

@[simp] theorem roundTrips_u16 (x : UInt16) : u16.RoundTrips x :=
  roundTrips_uint UInt16.toNat_lt (fun _ => UInt16.ofNat_toNat) x

@[simp] theorem roundTrips_u32 (x : UInt32) : u32.RoundTrips x :=
  roundTrips_uint UInt32.toNat_lt (fun _ => UInt32.ofNat_toNat) x

@[simp] theorem roundTrips_u64 (x : UInt64) : u64.RoundTrips x :=
  roundTrips_uint UInt64.toNat_lt (fun _ => UInt64.ofNat_toNat) x

/-- `i64` -/
def i64 : Codec Int where
  ser n := .ok (.int n)
  de
    | .int n => some n
    | _ => none

@[simp] theorem roundTrips_i64 (n : Int) : i64.RoundTrips n := ⟨_, rfl, rfl⟩

def bool : Codec Bool where
  ser b := .ok (.bool b)
  de
    | .bool b => some b
    | _ => none

@[simp] theorem roundTrips_bool (b : Bool) : bool.RoundTrips b := ⟨_, rfl, rfl⟩

def string : Codec String where
  ser s := .ok (.str s)
  de
    | .str s => some s
    | _ => none

@[simp] theorem roundTrips_string (s : String) : string.RoundTrips s := ⟨_, rfl, rfl⟩

/-! ## containers -/

variable (c : Codec α)

/-- `Vec<T>` -/
def list : Codec (List α) where
  ser l := do
    let js ← l.mapM c.ser
    .ok (.arr js)
  de
    | .arr js => js.mapM c.de
    | _ => none

@[simp] theorem roundTrips_list (l : List α) : (list c).RoundTrips l ↔ ∀ x ∈ l, c.RoundTrips x := by
  refine Iff.trans ?_ (mapM_roundTrips c.ser c.de l)
  constructor
  · rintro ⟨j, hj, hread⟩
    obtain ⟨js, hjs, ha⟩ := bind_eq_ok.mp hj
    obtain rfl : Json.arr js = j := Except.ok.inj ha
    exact ⟨js, hjs, hread⟩
  · rintro ⟨js, hjs, hread⟩
    exact ⟨.arr js, bind_eq_ok.mpr ⟨js, hjs, rfl⟩, hread⟩

def option : Codec (Option α) where
  ser
    | none => .ok .null
    | some x => c.ser x
  de
    | .null => some none
    | j => (c.de j).map some
  missing := some none

@[simp] theorem roundTrips_none : (option c).RoundTrips none := ⟨.null, rfl, rfl⟩

theorem roundTrips_some (hnl : c.de .null = none) (x : α) :
    (option c).RoundTrips (some x) ↔ c.RoundTrips x := by
  have hde : ∀ j, (option c).de j = some (some x) ↔ c.de j = some x := by
    intro j
    cases j with
    | null => simp [option, hnl]
    | _ => simp [option]
  constructor
  · rintro ⟨j, hj, hread⟩
    exact ⟨j, hj, (hde j).mp hread⟩
  · rintro ⟨j, hj, hread⟩
    exact ⟨j, hj, (hde j).mpr hread⟩

theorem roundTrips_option (hnl : c.de .null = none) (o : Option α) :
    (option c).RoundTrips o ↔ ∀ x, o = some x → c.RoundTrips x := by
  cases o with
  | none => simp
  | some x => simp [roundTrips_some c hnl]

/-- a tuple of two -/
def pair (d : Codec β) : Codec (α × β) where
  ser p := do
    let a ← c.ser p.1
    let b ← d.ser p.2
    .ok (.arr [a, b])
  de
    | .arr [a, b] => do
      let x ← c.de a
      let y ← d.de b
      some (x, y)
    | _ => none

@[simp] theorem roundTrips_pair (d : Codec β) (p : α × β) :
    (pair c d).RoundTrips p ↔ c.RoundTrips p.1 ∧ d.RoundTrips p.2 := by
  constructor
  · rintro ⟨j, hj, hr⟩
    obtain ⟨a, ha, hj⟩ := bind_eq_ok.mp hj
    obtain ⟨b, hb, hj⟩ := bind_eq_ok.mp hj
    obtain rfl : Json.arr [a, b] = j := Except.ok.inj hj
    obtain ⟨x, hx, hr⟩ := Option.bind_eq_some_iff.mp hr
    obtain ⟨y, hy, hr⟩ := Option.bind_eq_some_iff.mp hr
    obtain rfl : (x, y) = p := Option.some_inj.mp hr
    exact ⟨⟨a, ha, hx⟩, b, hb, hy⟩
  · rintro ⟨⟨a, ha, hx⟩, b, hb, hy⟩
    refine ⟨.arr [a, b], bind_eq_ok.mpr ⟨a, ha, bind_eq_ok.mpr ⟨b, hb, rfl⟩⟩, ?_⟩
    simp [pair, hx, hy]

/-- a value written as another one, of which not every one is read -/
def through (c : Codec β) (enc : α → β) (dec : β → Option α) : Codec α where
  ser x := c.ser (enc x)
  de j := (c.de j).bind dec

theorem roundTrips_through {c : Codec β} {enc : α → β} {dec : β → Option α} {x : α}
    (hd : dec (enc x) = some x) (h : c.RoundTrips (enc x)) :
    (through c enc dec).RoundTrips x := by
  obtain ⟨j, hj, hr⟩ := h
  exact ⟨j, hj, Option.bind_eq_some_iff.mpr ⟨enc x, hr, hd⟩⟩

/-- a record as the tuple of its fields -/
def ofEquiv (e : α ≃ β) (c : Codec β) : Codec α where
  ser x := c.ser (e x)
  de j := (c.de j).map e.symm

@[simp] theorem roundTrips_ofEquiv (e : α ≃ β) (c : Codec β) (x : α) :
    (ofEquiv e c).RoundTrips x ↔ c.RoundTrips (e x) := by
  have hde : ∀ j, (ofEquiv e c).de j = some x ↔ c.de j = some (e x) := by
    intro j
    simp [ofEquiv, Equiv.symm_apply_eq]
  constructor
  · rintro ⟨j, hj, hread⟩
    exact ⟨j, hj, (hde j).mp hread⟩
  · rintro ⟨j, hj, hread⟩
    exact ⟨j, hj, (hde j).mpr hread⟩

end Codec

/-! ## records -/

structure Fields (α : Type) where
  names : List String
  ser : α → Except String (List (String × Json))
  de : List (String × Json) → Option α
  skip : ∀ name j l, name ∉ names → de ((name, j) :: l) = de l

namespace Fields

def RoundTrips (r : Fields α) (x : α) : Prop := ∃ l, r.ser x = .ok l ∧ r.de l = some x

def nil : Fields Unit where
  names := []
  ser _ := .ok []
  de _ := some ()
  skip _ _ _ _ := rfl

@[simp] theorem names_nil : nil.names = [] := rfl

@[simp] theorem roundTrips_nil (x : Unit) : nil.RoundTrips x := ⟨[], rfl, rfl⟩

def cons (name : String) (c : Codec α) (r : Fields β) : Fields (α × β) where
  names := name :: r.names
  ser x := do
    let j ← c.ser x.1
    let l ← r.ser x.2
    .ok ((name, j) :: l)
  de l := do
    let a ← match l.lookup name with
      | some j => c.de j
      | none => c.missing
    let b ← r.de l
    some (a, b)
  skip name' j l h := by
    rw [mem_cons, not_or] at h
    have hne : (name == name') = false := beq_false_of_ne (Ne.symm h.1)
    rw [lookup_cons, hne, r.skip name' j l h.2]

@[simp] theorem names_cons (name : String) (c : Codec α) (r : Fields β) :
    (cons name c r).names = name :: r.names := rfl

@[simp] theorem roundTrips_cons {name : String} {r : Fields β} (hnm : name ∉ r.names)
    (c : Codec α) (x : α × β) :
    (cons name c r).RoundTrips x ↔ c.RoundTrips x.1 ∧ r.RoundTrips x.2 := by
  have hde : ∀ j l, (cons name c r).de ((name, j) :: l) =
      (c.de j).bind fun a => (r.de l).bind fun b => some (a, b) := by
    intro j l
    simp only [cons, lookup_cons, beq_self_eq_true, r.skip name j l hnm]
    rfl
  constructor
  · rintro ⟨l, hl, hr⟩
    obtain ⟨j, hj, hl⟩ := bind_eq_ok.mp hl
    obtain ⟨l', hl', hcn⟩ := bind_eq_ok.mp hl
    obtain rfl : (name, j) :: l' = l := Except.ok.inj hcn
    rw [hde] at hr
    obtain ⟨a, ha, hr⟩ := Option.bind_eq_some_iff.mp hr
    obtain ⟨b, hb, hr⟩ := Option.bind_eq_some_iff.mp hr
    obtain rfl : (a, b) = x := Option.some_inj.mp hr
    exact ⟨⟨j, hj, ha⟩, l', hl', hb⟩
  · rintro ⟨⟨j, hj, ha⟩, l, hl, hb⟩
    refine ⟨(name, j) :: l, bind_eq_ok.mpr ⟨j, hj, bind_eq_ok.mpr ⟨l, hl, rfl⟩⟩, ?_⟩
    rw [hde, ha, hb]
    rfl

/-- the object with these fields -/
def codec (r : Fields α) : Codec α where
  ser x := do
    let l ← r.ser x
    .ok (.obj l)
  de
    | .obj l => r.de l
    | _ => none

@[simp] theorem roundTrips_codec (r : Fields α) (x : α) :
    r.codec.RoundTrips x ↔ r.RoundTrips x := by
  constructor
  · rintro ⟨j, hj, hread⟩
    obtain ⟨l, hl, hob⟩ := bind_eq_ok.mp hj
    obtain rfl : Json.obj l = j := Except.ok.inj hob
    exact ⟨l, hl, hread⟩
  · rintro ⟨l, hl, hread⟩
    exact ⟨.obj l, bind_eq_ok.mpr ⟨l, hl, rfl⟩, hread⟩

end Fields

end

/-! ## maps -/

/-- how the keys of a map become the keys of an object -/
structure KeyCodec (κ : Type) where
  ser : κ → Except String String
  de : String → Option κ

namespace KeyCodec
variable {κ : Type}

/-- every key is written and read back as it was -/
def Lawful (k : KeyCodec κ) : Prop := ∀ x, ∃ s, k.ser x = .ok s ∧ k.de s = some x

/-- keys whose own encoding is neither a string nor an integer -/
def notString : KeyCodec κ := ⟨fun _ => .error "key must be a string", fun _ => none⟩

def string : KeyCodec String := ⟨fun s => .ok s, some⟩

theorem lawful_string : string.Lawful := fun s => ⟨s, rfl, rfl⟩

/-- an integer key is written in decimal -/
def u64 : KeyCodec UInt64 where
  ser x := .ok x.toNat.repr
  de s := do
    let n ← s.toNat?
    if n < 2 ^ 64 then some (.ofNat n) else none

theorem lawful_u64 : u64.Lawful := by
  intro x
  refine ⟨_, rfl, ?_⟩
  simp [u64, Nat.toNat?_repr, x.toNat_lt]

def u8 : KeyCodec UInt8 where
  ser x := .ok x.toNat.repr
  de s := do
    let n ← s.toNat?
    if n < 2 ^ 8 then some (.ofNat n) else none

theorem lawful_u8 : u8.Lawful := by
  intro x
  refine ⟨_, rfl, ?_⟩
  simp [u8, Nat.toNat?_repr, x.toNat_lt]

end KeyCodec

section
variable {κ υ : Type}

namespace Codec

def serEntry (k : KeyCodec κ) (c : Codec υ) (p : κ × υ) : Except String (String × Json) := do
  let s ← k.ser p.1
  let j ← c.ser p.2
  .ok (s, j)

def deEntry (k : KeyCodec κ) (c : Codec υ) (q : String × Json) : Option (κ × υ) := do
  let x ← k.de q.1
  let v ← c.de q.2
  some (x, v)

theorem fst_of_deEntry {k : KeyCodec κ} (hk : k.Lawful) {c : Codec υ} {p p' : κ × υ}
    {q : String × Json} (hsr : serEntry k c p = .ok q) (hde : deEntry k c q = some p') :
    p'.1 = p.1 ∧ ∃ j, c.ser p.2 = .ok j ∧ c.de j = some p'.2 := by
  obtain ⟨s, hs, hsr⟩ := bind_eq_ok.mp hsr
  obtain ⟨j, hj, hq⟩ := bind_eq_ok.mp hsr
  obtain rfl : (s, j) = q := Except.ok.inj hq
  obtain ⟨x, hx, hde⟩ := Option.bind_eq_some_iff.mp hde
  obtain ⟨v, hv, hp⟩ := Option.bind_eq_some_iff.mp hde
  obtain rfl : (x, v) = p' := Option.some_inj.mp hp
  obtain ⟨s', hs', hr⟩ := hk p.1
  obtain rfl : s' = s := Except.ok.inj (hs'.symm.trans hs)
  exact ⟨Option.some_inj.mp (hx.symm.trans hr), j, hj, hv⟩

theorem entry_roundTrips {k : KeyCodec κ} (hk : k.Lawful) (c : Codec υ) (p : κ × υ) :
    (∃ q, serEntry k c p = .ok q ∧ deEntry k c q = some p) ↔ c.RoundTrips p.2 := by
  constructor
  · rintro ⟨q, hsr, hde⟩
    exact (fst_of_deEntry hk hsr hde).2
  · rintro ⟨j, hj, hread⟩
    obtain ⟨s, hs, hky⟩ := hk p.1
    refine ⟨(s, j), bind_eq_ok.mpr ⟨s, hs, bind_eq_ok.mpr ⟨j, hj, rfl⟩⟩, ?_⟩
    simp [deEntry, hky, hread]

theorem keys_of_mapM {k : KeyCodec κ} (hk : k.Lawful) {c : Codec υ} {l l' : List (κ × υ)}
    {qs : List (String × Json)} (hsr : l.mapM (serEntry k c) = .ok qs)
    (hde : qs.mapM (deEntry k c) = some l') : l'.map Prod.fst = l.map Prod.fst := by
  induction l generalizing qs l' with
  | nil =>
    obtain rfl : [] = qs := Except.ok.inj hsr
    obtain rfl : [] = l' := Option.some_inj.mp hde
    rfl
  | cons p l ih =>
    rw [mapM_cons] at hsr
    obtain ⟨q, hq, hsr⟩ := bind_eq_ok.mp hsr
    obtain ⟨qs', hqs', hcn⟩ := bind_eq_ok.mp hsr
    obtain rfl : q :: qs' = qs := Except.ok.inj hcn
    rw [mapM_cons] at hde
    obtain ⟨p', hp', hde⟩ := Option.bind_eq_some_iff.mp hde
    obtain ⟨l'', hl'', hcn'⟩ := Option.bind_eq_some_iff.mp hde
    obtain rfl : p' :: l'' = l' := Option.some_inj.mp hcn'
    rw [map_cons, map_cons, ih hqs' hl'', (fst_of_deEntry hk hq hp').1]

end Codec

variable [DecidableEq κ]

namespace Codec

def map (k : KeyCodec κ) (c : Codec υ) : Codec (HashMap κ υ) where
  ser m := do
    let l ← m.inserted.mapM (serEntry k c)
    .ok (.obj l)
  de
    | .obj l => (l.mapM (deEntry k c)).map HashMap.collect
    | _ => none

theorem roundTrips_map {k : KeyCodec κ} (hk : k.Lawful) (c : Codec υ) (m : HashMap κ υ) :
    (map k c).RoundTrips m ↔ ∀ x v, m.lookup x = some v → c.RoundTrips v := by
  have him : (∀ x v, m.lookup x = some v → c.RoundTrips v) ↔
      ∀ p ∈ m.inserted, ∃ q, serEntry k c p = .ok q ∧ deEntry k c q = some p := by
    simp only [entry_roundTrips hk, Prod.forall, HashMap.mem_inserted]
  rw [him, ← mapM_roundTrips]
  constructor
  · rintro ⟨j, hj, hread⟩
    obtain ⟨qs, hqs, hob⟩ := bind_eq_ok.mp hj
    obtain rfl : Json.obj qs = j := Except.ok.inj hob
    obtain ⟨l, hl, hcl⟩ := Option.map_eq_some_iff.mp hread
    -- the keys that come back are different, so the map holds the pairs as they came
    have hnd : (l.map Prod.fst).Nodup := by
      rw [keys_of_mapM hk hqs hl]
      exact m.nodup_inserted
    rw [HashMap.collect_eq_iff l m hnd] at hcl
    exact ⟨qs, hqs, hcl ▸ hl⟩
  · rintro ⟨qs, hqs, hl⟩
    refine ⟨.obj qs, bind_eq_ok.mpr ⟨qs, hqs, rfl⟩, Option.map_eq_some_iff.mpr ⟨_, hl, ?_⟩⟩
    exact (HashMap.collect_eq_iff _ m m.nodup_inserted).mpr rfl

theorem ser_map_notString (c : Codec υ) {m : HashMap κ υ} (hm : m ≠ ∅) :
    (map .notString c).ser m = .error "key must be a string" := by
  cases hl : m.inserted with
  | nil =>
    refine absurd (HashMap.eq_empty_of_size ?_) hm
    have hln := congrArg length hl
    simpa [HashMap.inserted, HashMap.size] using hln
  | cons p l =>
    show (m.inserted.mapM _ >>= _) = _
    rw [hl]
    rfl

theorem roundTrips_map_notString (c : Codec υ) (m : HashMap κ υ) :
    (map .notString c).RoundTrips m ↔ m = ∅ := by
  constructor
  · rintro ⟨j, hj, -⟩
    by_contra hm
    rw [ser_map_notString c hm] at hj
    cases hj
  · rintro rfl
    exact ⟨.obj [], rfl, rfl⟩

end Codec

end

end Platform.Lib
