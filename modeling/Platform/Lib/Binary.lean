import Platform.Lib.Assoc
import Platform.Lib.Bincode

/-!
# Binary documents, written and read

The layouts of `Platform.Lib.Bincode` with their readers.  A reader takes its value from the front
of the bytes and leaves the rest; bytes that are left over at the end are allowed.

* `BinCodec.Lawful c`      what `c` writes it reads back, whatever follows;
* `BinCodec.Canonical c`   what `c` reads is what it would have written.

Numbers, arrays and records of them are canonical.  Maps are not (their entries come in any order)
and neither are values that are written as text.

A length is written in eight bytes.  `Lawful` therefore speaks of documents below `2 ^ 64` bytes:
then every length in them fits.
-/

namespace Platform.Lib
open List HashMap

/-! ## little-endian numbers -/

def leNat : List UInt8 → Nat
  | [] => 0
  | b :: bs => b.toNat + 256 * leNat bs

theorem leNat_leBytes (n x : Nat) : leNat (leBytes n x) = x % 256 ^ n := by
  induction n generalizing x with
  | zero => simp [leBytes, leNat, Nat.mod_one]
  | succ n ih =>
    show (UInt8.ofNat x).toNat + 256 * leNat (leBytes n (x / 256)) = _
    rw [pow_succ' 256 n, Nat.mod_mul, ih, UInt8.toNat_ofNat']

theorem leNat_lt (bs : List UInt8) : leNat bs < 256 ^ bs.length := by
  induction bs with
  | nil => simp [leNat]
  | cons b bs ih =>
    show b.toNat + 256 * leNat bs < 256 ^ (bs.length + 1)
    have hb : b.toNat < 256 := b.toNat_lt
    omega

theorem leBytes_leNat (bs : List UInt8) : leBytes bs.length (leNat bs) = bs := by
  induction bs with
  | nil => rfl
  | cons b bs ih =>
    have hb : b.toNat < 256 := b.toNat_lt
    have hdv : leNat (b :: bs) / 256 = leNat bs := by
      show (b.toNat + 256 * leNat bs) / 256 = leNat bs
      omega
    have hlw : UInt8.ofNat (leNat (b :: bs)) = b := by
      apply UInt8.toNat.inj
      show (b.toNat + 256 * leNat bs) % 2 ^ 8 = b.toNat
      omega
    show UInt8.ofNat (leNat (b :: bs)) :: leBytes bs.length (leNat (b :: bs) / 256) = b :: bs
    rw [hlw, hdv, ih]

theorem leBytes_add (m n x : Nat) : leBytes (m + n) x = leBytes m x ++ leBytes n (x / 256 ^ m) := by
  induction m generalizing x with
  | zero => simp [leBytes]
  | succ m ih =>
    rw [Nat.succ_add]
    show UInt8.ofNat x :: leBytes (m + n) (x / 256) = _
    rw [ih, pow_succ', Nat.div_div_eq_div_mul]
    rfl

theorem leBytes_mod (n x : Nat) : leBytes n (x % 256 ^ n) = leBytes n x := by
  have h := leBytes_leNat (leBytes n x)
  rwa [length_leBytes, leNat_leBytes] at h

theorem getElem?_leBytes (n x i : Nat) (hi : i < n) :
    (leBytes n x)[i]? = some (UInt8.ofNat (x / 256 ^ i)) := by
  induction n generalizing x i with
  | zero => omega
  | succ n ih =>
    cases i with
    | zero => simp [leBytes]
    | succ i =>
      show (leBytes n (x / 256))[i]? = _
      rw [ih _ _ (by omega), pow_succ', Nat.div_div_eq_div_mul]

/-! ## UTF-8 -/

/-- `str::as_bytes` -/
def utf8 (s : String) : List UInt8 := s.toByteArray.data.toList

def fromUtf8 (bs : List UInt8) : Option String := String.fromUTF8? ⟨bs.toArray⟩

variable {bs rest : List UInt8} {n : Nat} {s : String}

theorem fromUtf8_eq_some : fromUtf8 bs = some s ↔ utf8 s = bs := by
  unfold fromUtf8 String.fromUTF8? utf8
  constructor
  · intro h
    split at h
    · cases h
      rfl
    · cases h
  · rintro rfl
    rw [dif_pos s.isValidUTF8]
    rfl

@[simp] theorem fromUtf8_utf8 (s : String) : fromUtf8 (utf8 s) = some s := fromUtf8_eq_some.mpr rfl

theorem utf8_inj {t : String} (h : utf8 s = utf8 t) : s = t := by
  have hs : fromUtf8 (utf8 t) = some s := fromUtf8_eq_some.mpr h
  exact (Option.some_inj.mp ((fromUtf8_utf8 t).symm.trans hs)).symm

@[simp] theorem utf8_append (s t : String) : utf8 (s ++ t) = utf8 s ++ utf8 t := by
  simp [utf8, String.toByteArray_append]

theorem exists_append_of_utf8 {w : String} {t : List UInt8} (h : utf8 s ++ t = utf8 w) :
    ∃ x, w = s ++ x := by
  have hv : ∀ l : List Char, (l.utf8Encode ++ ⟨t.toArray⟩).IsValidUTF8 →
      (⟨t.toArray⟩ : ByteArray).IsValidUTF8 := by
    intro l
    induction l with
    | nil =>
      intro hl
      simpa using hl
    | cons c l ih =>
      intro hl
      rw [← singleton_append, utf8Encode_append, ByteArray.append_assoc] at hl
      exact ih (ByteArray.isValidUTF8_utf8Encode_singleton_append_iff.mp hl)
  have hby : s.toList.utf8Encode ++ ⟨t.toArray⟩ = w.toByteArray := by
    apply ByteArray.ext
    apply Array.ext'
    simpa [utf8] using h
  have ht := hv s.toList (by rw [hby]; exact w.isValidUTF8)
  refine ⟨⟨⟨t.toArray⟩, ht⟩, utf8_inj ?_⟩
  rw [← h]
  simp [utf8]

/-! ## readers -/

/-- `bincode::ErrorKind` -/
inductive DecodeError where
  | unexpectedEof
  | invalidUtf8
  | invalidBool (b : UInt8)
  | invalidTag (b : UInt8)
  | custom (msg : String)
deriving DecidableEq

def DecodeError.display : DecodeError → String
  | .unexpectedEof => "io error: unexpected end of file"
  | .invalidUtf8 => "string is not valid utf8"
  | .invalidBool b => "invalid u8 while decoding bool, expected 0 or 1, found " ++ b.toNat.repr
  | .invalidTag b => "tag for enum is not valid, found " ++ b.toNat.repr
  | .custom msg => msg

abbrev Reader (α : Type) := List UInt8 → Except DecodeError (α × List UInt8)

def Reader.map {α β : Type} (f : α → β) (r : Reader α) : Reader β := fun bs =>
  (r bs).map fun p => (f p.1, p.2)

def readBytes (n : Nat) : Reader (List UInt8) := fun bs =>
  if n ≤ bs.length then .ok (bs.take n, bs.drop n) else .error .unexpectedEof

theorem readBytes_append (h : bs.length = n) (rest : List UInt8) :
    readBytes n (bs ++ rest) = .ok (bs, rest) := by
  subst h
  simp [readBytes]

theorem readBytes_eq_ok {b : List UInt8} :
    readBytes n bs = .ok (b, rest) ↔ b.length = n ∧ bs = b ++ rest := by
  constructor
  · intro h
    unfold readBytes at h
    split at h
    · next hn =>
      cases h
      exact ⟨by simp [hn], (take_append_drop n bs).symm⟩
    · cases h
  · rintro ⟨hb, rfl⟩
    exact readBytes_append hb rest

theorem readBytes_of_lt (h : bs.length < n) :
    readBytes n bs = .error .unexpectedEof := if_neg (by omega)

/-- a length, as it stands before the items of a vector -/
def readLen : Reader Nat := (readBytes 8).map leNat

theorem readLen_append (h : n < 2 ^ 64) (rest : List UInt8) :
    readLen (leBytes 8 n ++ rest) = .ok (n, rest) := by
  show Except.ok (leNat (leBytes 8 n), rest) = _
  rw [leNat_leBytes, Nat.mod_eq_of_lt (lt_of_lt_of_eq h (by norm_num))]

/-! ## codecs -/

structure BinCodec (α : Type) where
  ser : α → List UInt8
  de : Reader α

namespace BinCodec

/-- What is written is read back, whatever follows; nothing is written as no bytes. -/
structure Lawful {α : Type} (c : BinCodec α) : Prop where
  pos : ∀ x, 0 < (c.ser x).length
  reads : ∀ x rest, (c.ser x).length < 2 ^ 64 → c.de (c.ser x ++ rest) = .ok (x, rest)

/-- What is read is what would have been written. -/
def Canonical {α : Type} (c : BinCodec α) : Prop :=
  ∀ bs x rest, c.de bs = .ok (x, rest) → bs = c.ser x ++ rest

/-- `bincode::deserialize`: what is left over is passed over. -/
def deserialize {α : Type} (c : BinCodec α) (bs : List UInt8) : Except DecodeError α :=
  (c.de bs).map Prod.fst

section
variable {α β : Type} {c : BinCodec α} {d : BinCodec β}

variable {x : α} {enc : α → β} {dec : β → α} {l : List α}

theorem Lawful.deserialize (hc : c.Lawful) (hx : (c.ser x).length < 2 ^ 64) :
    c.deserialize (c.ser x) = .ok x := by
  have h := hc.reads x [] hx
  rw [append_nil] at h
  simp [BinCodec.deserialize, h, Except.map]

theorem deserialize_eq_ok : c.deserialize bs = .ok x ↔ ∃ rest, c.de bs = .ok (x, rest) := by
  unfold BinCodec.deserialize
  cases h : c.de bs with
  | error e => simp [Except.map]
  | ok p =>
    obtain ⟨y, rest⟩ := p
    simp [Except.map]

theorem Lawful.reads_variant (hc : c.Lawful) {f : α → β} {y : β} {r : Reader β} {b : List UInt8}
    (hr : r = c.de.map f) (hb : b = c.ser x) (hy : f x = y)
    (hx : b.length < 2 ^ 64) : r (b ++ rest) = .ok (y, rest) := by
  subst hr hb hy
  show Except.map _ (c.de (c.ser x ++ rest)) = _
  rw [hc.reads x rest hx]
  rfl

/-! ## scalars -/

/-- an unsigned integer of `w` bytes -/
def uint (w : Nat) (ofNat : Nat → α) (toNat : α → Nat) : BinCodec α where
  ser x := leBytes w (toNat x)
  de := (readBytes w).map fun b => ofNat (leNat b)

theorem de_uint_append (w : Nat) (ofNat : Nat → α) (toNat : α → Nat) (n : Nat)
    (rest : List UInt8) :
    (uint w ofNat toNat).de (leBytes w n ++ rest) = .ok (ofNat (n % 256 ^ w), rest) := by
  show Except.map _ (readBytes w (leBytes w n ++ rest)) = _
  rw [readBytes_append (length_leBytes w n), ← leNat_leBytes]
  rfl

theorem lawful_uint {w : Nat} {ofNat : Nat → α} {toNat : α → Nat} (hw : 0 < w)
    (hlt : ∀ x, toNat x < 256 ^ w) (hof : ∀ x, ofNat (toNat x) = x) :
    (uint w ofNat toNat).Lawful where
  pos x := by
    show 0 < (leBytes w (toNat x)).length
    rwa [length_leBytes]
  reads x rest _ := by
    show (uint w ofNat toNat).de (leBytes w (toNat x) ++ rest) = _
    rw [de_uint_append, Nat.mod_eq_of_lt (hlt x), hof]

theorem canonical_uint {w : Nat} {ofNat : Nat → α} {toNat : α → Nat}
    (hto : ∀ n, n < 256 ^ w → toNat (ofNat n) = n) : (uint w ofNat toNat).Canonical := by
  intro bs x rest h
  change Except.map _ (readBytes w bs) = _ at h
  cases hb : readBytes w bs with
  | error e =>
    rw [hb] at h
    cases h
  | ok p =>
    obtain ⟨b, rest'⟩ := p
    rw [hb] at h
    obtain ⟨hl, rfl⟩ := readBytes_eq_ok.mp hb
    obtain ⟨rfl, rfl⟩ := Prod.mk.inj (Except.ok.inj h)
    show _ = leBytes w (toNat (ofNat (leNat b))) ++ _
    have hlt := leNat_lt b
    rw [hl] at hlt
    rw [hto _ hlt, ← hl, leBytes_leNat]

def u8 : BinCodec UInt8 := uint 1 .ofNat UInt8.toNat
def u16 : BinCodec UInt16 := uint 2 .ofNat UInt16.toNat
def u32 : BinCodec UInt32 := uint 4 .ofNat UInt32.toNat
def u64 : BinCodec UInt64 := uint 8 .ofNat UInt64.toNat

/-- `i64`: as the `u64` with the same bits -/
def i64 : BinCodec Int64 := uint 8 (fun n => (UInt64.ofNat n).toInt64) fun x => x.toUInt64.toNat

theorem length_ser_u64 (x : UInt64) : (u64.ser x).length = 8 := length_leBytes 8 _

theorem lawful_u8 : u8.Lawful :=
  lawful_uint (by decide) (fun x => x.toNat_lt) fun _ => UInt8.ofNat_toNat

theorem lawful_u16 : u16.Lawful :=
  lawful_uint (by decide) (fun x => x.toNat_lt) fun _ => UInt16.ofNat_toNat

theorem lawful_u32 : u32.Lawful :=
  lawful_uint (by decide) (fun x => x.toNat_lt) fun _ => UInt32.ofNat_toNat

theorem lawful_u64 : u64.Lawful :=
  lawful_uint (by decide) (fun x => x.toNat_lt) fun _ => UInt64.ofNat_toNat

theorem lawful_i64 : i64.Lawful :=
  lawful_uint (by decide) (fun x => x.toUInt64.toNat_lt) fun x => by simp

theorem canonical_u16 : u16.Canonical := canonical_uint fun _ h => UInt16.toNat_ofNat_of_lt' h

theorem canonical_u64 : u64.Canonical := canonical_uint fun _ h => UInt64.toNat_ofNat_of_lt' h

def bool : BinCodec Bool where
  ser b := [if b then 1 else 0]
  de
    | [] => .error .unexpectedEof
    | b :: rest =>
      if b = 0 then .ok (false, rest) else if b = 1 then .ok (true, rest)
      else .error (.invalidBool b)

theorem lawful_bool : bool.Lawful where
  pos _ := Nat.one_pos
  reads b rest _ := by
    cases b with
    | false => rfl
    | true => rfl

/-! ## bytes and text -/

/-- `Vec<u8>` -/
def bytes : BinCodec (List UInt8) where
  ser b := leBytes 8 b.length ++ b
  de bs := do
    let (n, bs) ← readLen bs
    readBytes n bs

theorem de_bytes_append (h : n < 2 ^ 64) (rest : List UInt8) :
    bytes.de (leBytes 8 n ++ rest) = readBytes n rest := by
  show (readLen (leBytes 8 n ++ rest) >>= _) = _
  rw [readLen_append h]
  rfl

theorem lawful_bytes : bytes.Lawful where
  pos b := by simp [bytes]
  reads b rest h := by
    have hl : b.length < 2 ^ 64 := by
      simp only [bytes, length_append, length_leBytes] at h
      omega
    show bytes.de ((leBytes 8 b.length ++ b) ++ rest) = _
    rw [append_assoc, de_bytes_append hl, readBytes_append rfl]

/-- `[u8; n]` -/
def array (n : Nat) : BinCodec {b : List UInt8 // b.length = n} where
  ser b := b.1
  de bs :=
    if h : (bs.take n).length = n then .ok (⟨bs.take n, h⟩, bs.drop n) else .error .unexpectedEof

theorem lawful_array (hn : 0 < n) : (array n).Lawful where
  pos b := by
    show 0 < b.1.length
    rwa [b.2]
  reads b rest _ := by
    obtain ⟨b, rfl⟩ := b
    simp [array]

theorem canonical_array (n : Nat) : (array n).Canonical := by
  intro bs x rest h
  simp only [array] at h
  split at h
  · cases h
    exact (take_append_drop n bs).symm
  · cases h

/-! ## records -/

def pair (c : BinCodec α) (d : BinCodec β) : BinCodec (α × β) where
  ser p := c.ser p.1 ++ d.ser p.2
  de bs := do
    let (x, bs) ← c.de bs
    let (y, bs) ← d.de bs
    .ok ((x, y), bs)

theorem de_pair_of_ok {mid : List UInt8} (h : c.de bs = .ok (x, mid)) :
    (pair c d).de bs = (d.de mid).map fun q => ((x, q.1), q.2) := by
  show (c.de bs >>= _) = _
  rw [h]
  show (d.de mid >>= _) = _
  cases d.de mid with
  | error e => rfl
  | ok q => rfl

theorem de_pair_of_error {e : DecodeError} (h : c.de bs = .error e) :
    (pair c d).de bs = .error e := by
  show (c.de bs >>= _) = _
  rw [h]
  rfl

theorem de_pair_eq_ok {p : α × β} :
    (pair c d).de bs = .ok (p, rest) ↔
      ∃ mid, c.de bs = .ok (p.1, mid) ∧ d.de mid = .ok (p.2, rest) := by
  cases hc : c.de bs with
  | error e =>
    rw [de_pair_of_error hc]
    simp
  | ok q =>
    obtain ⟨x, mid⟩ := q
    rw [de_pair_of_ok hc]
    cases hd : d.de mid with
    | error e =>
      constructor
      · intro h
        cases h
      · rintro ⟨mid', h1, h2⟩
        obtain ⟨-, rfl⟩ := Prod.mk.inj (Except.ok.inj h1)
        rw [hd] at h2
        cases h2
    | ok q =>
      obtain ⟨y, rest'⟩ := q
      constructor
      · intro h
        obtain ⟨rfl, rfl⟩ := Prod.mk.inj (Except.ok.inj h)
        exact ⟨mid, rfl, hd⟩
      · rintro ⟨mid', h1, h2⟩
        obtain ⟨hx, rfl⟩ := Prod.mk.inj (Except.ok.inj h1)
        rw [hd] at h2
        obtain ⟨hy, hr⟩ := Prod.mk.inj (Except.ok.inj h2)
        rw [hx, hy, hr]
        rfl

theorem lawful_pair (hc : c.Lawful) (hd : d.Lawful) : (pair c d).Lawful where
  pos p := by
    have h := hc.pos p.1
    simp only [pair, length_append]
    omega
  reads p rest h := by
    have hl : (c.ser p.1).length + (d.ser p.2).length < 2 ^ 64 := by
      rwa [← length_append]
    rw [de_pair_eq_ok]
    refine ⟨d.ser p.2 ++ rest, ?_, hd.reads _ _ (by omega)⟩
    show c.de ((c.ser p.1 ++ d.ser p.2) ++ rest) = _
    rw [append_assoc]
    exact hc.reads _ _ (by omega)

theorem canonical_pair (hc : c.Canonical) (hd : d.Canonical) : (pair c d).Canonical := by
  intro bs p rest h
  obtain ⟨mid, h1, h2⟩ := de_pair_eq_ok.mp h
  rw [hc _ _ _ h1, hd _ _ _ h2]
  exact (append_assoc _ _ _).symm

/-- a record as the tuple of its fields -/
def iso (c : BinCodec β) (enc : α → β) (dec : β → α) : BinCodec α where
  ser x := c.ser (enc x)
  de := c.de.map dec

theorem lawful_iso {c : BinCodec β} (hc : c.Lawful)
    (h : ∀ x, dec (enc x) = x) : (iso c enc dec).Lawful where
  pos x := hc.pos (enc x)
  reads x rest hx := by
    show Except.map _ (c.de (c.ser (enc x) ++ rest)) = _
    rw [hc.reads _ _ hx]
    show Except.ok (dec (enc x), rest) = _
    rw [h]

theorem de_iso_eq_ok {c : BinCodec β} :
    (iso c enc dec).de bs = .ok (x, rest) ↔ ∃ y, c.de bs = .ok (y, rest) ∧ dec y = x := by
  show Except.map _ (c.de bs) = _ ↔ _
  cases h : c.de bs with
  | error e => simp [Except.map]
  | ok p =>
    obtain ⟨y, r⟩ := p
    simp only [Except.map, Except.ok.injEq, Prod.mk.injEq]
    constructor
    · rintro ⟨hy, rfl⟩
      exact ⟨y, ⟨rfl, rfl⟩, hy⟩
    · rintro ⟨_, ⟨rfl, rfl⟩, hy⟩
      exact ⟨hy, rfl⟩

theorem deserialize_iso {c : BinCodec β} (bs : List UInt8) :
    (iso c enc dec).deserialize bs = (c.deserialize bs).map dec := by
  show Except.map _ (Except.map _ (c.de bs)) = Except.map _ (Except.map _ (c.de bs))
  cases c.de bs with
  | error e => rfl
  | ok p => rfl

theorem canonical_iso {c : BinCodec β} (hc : c.Canonical)
    (h : ∀ y, enc (dec y) = y) : (iso c enc dec).Canonical := by
  intro bs x rest hx
  obtain ⟨y, hy, rfl⟩ := de_iso_eq_ok.mp hx
  rw [hc _ _ _ hy]
  show _ = c.ser (enc (dec y)) ++ rest
  rw [h]

/-- a value written as another one, of which not every one is read -/
def through (c : BinCodec β) (enc : α → β) (dec : β → Except DecodeError α) : BinCodec α where
  ser x := c.ser (enc x)
  de bs := do
    let (y, bs) ← c.de bs
    let x ← dec y
    .ok (x, bs)

theorem lawful_through {c : BinCodec β} (hc : c.Lawful) {dec : β → Except DecodeError α}
    (h : ∀ x, dec (enc x) = .ok x) :
    (through c enc dec).Lawful where
  pos x := hc.pos (enc x)
  reads x rest hx := by
    show (c.de (c.ser (enc x) ++ rest) >>= _) = _
    rw [hc.reads _ _ hx]
    show (dec (enc x) >>= _) = _
    rw [h]
    rfl

def string : BinCodec String :=
  through bytes utf8 fun b =>
    match fromUtf8 b with
    | some s => .ok s
    | none => .error .invalidUtf8

theorem lawful_string : string.Lawful := lawful_through lawful_bytes fun s => by simp

theorem length_ser_string (s : String) : (string.ser s).length = 8 + (utf8 s).length := by
  simp [string, through, bytes]

/-! ## containers -/

def option (c : BinCodec α) : BinCodec (Option α) where
  ser
    | none => [0]
    | some x => 1 :: c.ser x
  de
    | [] => .error .unexpectedEof
    | b :: rest =>
      if b = 0 then .ok (none, rest) else if b = 1 then c.de.map some rest
      else .error (.invalidTag b)

theorem lawful_option (hc : c.Lawful) : (option c).Lawful where
  pos o := by cases o <;> simp [option]
  reads o rest h := by
    cases o with
    | none => rfl
    | some x =>
      have hx : (c.ser x).length < 2 ^ 64 := by
        simp only [option, length_cons] at h
        omega
      show c.de.map some (c.ser x ++ rest) = _
      exact hc.reads_variant rfl rfl rfl hx

def readMany (c : BinCodec α) : Nat → Reader (List α)
  | 0, bs => .ok ([], bs)
  | n + 1, bs => do
    let (x, bs) ← c.de bs
    let (xs, bs) ← readMany c n bs
    .ok (x :: xs, bs)

/-- `Vec<T>` -/
def list (c : BinCodec α) : BinCodec (List α) where
  ser l := leBytes 8 l.length ++ l.flatMap c.ser
  de bs := do
    let (n, bs) ← readLen bs
    readMany c n bs

theorem length_le_flatMap (hp : ∀ x, 0 < (c.ser x).length) (l : List α) :
    l.length ≤ (l.flatMap c.ser).length := by
  induction l with
  | nil => exact le_rfl
  | cons x l ih =>
    have hx := hp x
    rw [flatMap_cons, length_append, length_cons]
    omega

theorem readMany_spec (p : α → Bool) (err : DecodeError)
    (h : ∀ x ∈ l, ∀ rest, c.de (c.ser x ++ rest) = if p x then .ok (x, rest) else .error err)
    (rest : List UInt8) :
    readMany c l.length (l.flatMap c.ser ++ rest) =
      if l.all p then .ok (l, rest) else .error err := by
  induction l with
  | nil => rfl
  | cons x l ih =>
    rw [flatMap_cons, append_assoc, length_cons, readMany, h x mem_cons_self, all_cons]
    cases hx : p x with
    | false => rfl
    | true =>
      show (readMany c l.length (l.flatMap c.ser ++ rest) >>= _) = if l.all p then _ else _
      rw [ih fun y hy => h y (mem_cons_of_mem x hy)]
      cases l.all p with
      | false => rfl
      | true => rfl

theorem length_ser_le_flatMap (hx : x ∈ l) : (c.ser x).length ≤ (l.flatMap c.ser).length := by
  obtain ⟨l₁, l₂, rfl⟩ := append_of_mem hx
  rw [flatMap_append, flatMap_cons, length_append, length_append]
  omega

theorem de_list_spec (p : α → Bool) (err : DecodeError)
    (h : ∀ x ∈ l, ∀ rest, c.de (c.ser x ++ rest) = if p x then .ok (x, rest) else .error err)
    (hl : l.length < 2 ^ 64) (rest : List UInt8) :
    (list c).de ((list c).ser l ++ rest) = if l.all p then .ok (l, rest) else .error err := by
  show (readLen ((leBytes 8 l.length ++ l.flatMap c.ser) ++ rest) >>= _) = _
  rw [append_assoc, readLen_append hl]
  exact readMany_spec p err h rest

theorem lawful_list (hc : c.Lawful) : (list c).Lawful where
  pos l := by simp [list]
  reads l rest h := by
    have hle := length_le_flatMap hc.pos l
    have hl : 8 + (l.flatMap c.ser).length < 2 ^ 64 := by
      simpa [list] using h
    have hrd : ∀ x ∈ l, ∀ rest, c.de (c.ser x ++ rest) = .ok (x, rest) := by
      intro x hx rest
      have hx := length_ser_le_flatMap (c := c) hx
      exact hc.reads x rest (by omega)
    have ha : l.all (fun _ => true) = true := by simp
    rw [de_list_spec (fun _ => true) .unexpectedEof hrd (by omega), ha]
    rfl

end

section
variable {κ υ : Type} [DecidableEq κ]

/-- `HashMap<K, V>`: as the vector of its entries; an entry that comes later wins. -/
def map (c : BinCodec κ) (d : BinCodec υ) : BinCodec (HashMap κ υ) :=
  iso (list (pair c d)) inserted collect

variable {c : BinCodec κ}

theorem lawful_map {d : BinCodec υ} (hc : c.Lawful) (hd : d.Lawful) : (map c d).Lawful :=
  lawful_iso (lawful_list (lawful_pair hc hd)) fun m =>
    (collect_eq_iff _ m m.nodup_inserted).mpr rfl

def set (c : BinCodec κ) : BinCodec (HashMap κ Unit) :=
  iso (list c) (fun m => m.inserted.map Prod.fst) fun l => collect (l.map fun x => (x, ()))

theorem lawful_set (hc : c.Lawful) : (set c).Lawful :=
  lawful_iso (lawful_list hc) fun m => by
    rw [map_map]
    show collect (m.inserted.map id) = m
    rw [map_id]
    exact (collect_eq_iff _ m m.nodup_inserted).mpr rfl

theorem size_le_length_map {d : BinCodec υ} (hc : c.Lawful) (hd : d.Lawful)
    (m : HashMap κ υ) : m.size ≤ ((map c d).ser m).length := by
  have h := length_le_flatMap (lawful_pair hc hd).pos m.inserted
  have hsz : m.inserted.length = m.size := by simp [inserted, size]
  show m.size ≤ (leBytes 8 m.inserted.length ++ m.inserted.flatMap (pair c d).ser).length
  rw [length_append]
  omega

end

/-! ## enumerations -/

section
variable {α : Type}

def enumeration (idx : α → Nat) (count : Nat) (body : α → List UInt8) (variant : Nat → Reader α) :
    BinCodec α where
  ser x := leBytes 4 (idx x) ++ body x
  de bs := do
    let (b, bs) ← readBytes 4 bs
    if leNat b < count then variant (leNat b) bs
    else .error (.custom ("invalid value: integer `" ++ (leNat b).repr ++
      "`, expected variant index 0 <= i < " ++ count.repr))

theorem de_enumeration {idx : α → Nat} {cnt : Nat} {body : α → List UInt8}
    {vr : Nat → Reader α} (hcn : cnt < 2 ^ 32) {x : α} (hix : idx x < cnt)
    (rest : List UInt8) :
    (enumeration idx cnt body vr).de ((leBytes 4 (idx x) ++ body x) ++ rest) =
      vr (idx x) (body x ++ rest) := by
  have hx : leNat (leBytes 4 (idx x)) = idx x := by
    rw [leNat_leBytes, Nat.mod_eq_of_lt]
    exact lt_of_lt_of_eq (hix.trans hcn) (by norm_num)
  show (readBytes 4 ((leBytes 4 (idx x) ++ body x) ++ rest) >>= _) = _
  rw [append_assoc, readBytes_append (length_leBytes 4 _)]
  show (if leNat (leBytes 4 (idx x)) < cnt then _ else _) = _
  rw [hx, if_pos hix]

theorem lawful_enumeration {idx : α → Nat} {cnt : Nat} {body : α → List UInt8}
    {vr : Nat → Reader α} (hcn : cnt < 2 ^ 32) (hix : ∀ x, idx x < cnt)
    (hbd : ∀ x rest, (body x).length < 2 ^ 64 → vr (idx x) (body x ++ rest) = .ok (x, rest)) :
    (enumeration idx cnt body vr).Lawful where
  pos x := by simp [enumeration]
  reads x rest h := by
    have hl : (body x).length < 2 ^ 64 := by
      simp only [enumeration, length_append, length_leBytes] at h
      omega
    exact (de_enumeration hcn (hix x) rest).trans (hbd x rest hl)

end

end BinCodec

end Platform.Lib
