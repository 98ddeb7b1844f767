import Platform.Lib.Binary

/-!
# Lossy decoding of UTF-8 (`String::from_utf8_lossy`)

The decoder goes over the bytes once.  It keeps the character that it is in the middle of, and the
range in which the next byte must be.  A byte outside of that range ends the character: it is
replaced by U+FFFD, and the byte is looked at again as the first one of a character.

* `lossyChars_append_zero`   a zero byte cuts the text, whatever stands before it;
* `zero_notMem_lossyChars`   no other byte gives a zero character;
* `fromUtf8Lossy_utf8`       the bytes of a text are decoded to that text.
-/

namespace Platform.Lib
open List

/-- `char::REPLACEMENT_CHARACTER` -/
def replacement : Char := Char.ofNat 0xFFFD

/-- a character in the middle: the bytes that are missing, the range of the next one, and the value
of the bytes so far -/
structure Partial where
  missing : Nat
  low : Nat
  high : Nat
  value : Nat

def firstByte (b : Nat) : List Char × Option Partial :=
  if b < 0x80 then ([Char.ofNat b], none)
  else if b < 0xC2 then ([replacement], none)
  else if b < 0xE0 then ([], some ⟨1, 0x80, 0xBF, b - 0xC0⟩)
  -- what would be an overlong form, a surrogate or too large is out of range with the second byte
  else if b = 0xE0 then ([], some ⟨2, 0xA0, 0xBF, 0⟩)
  else if b = 0xED then ([], some ⟨2, 0x80, 0x9F, 0xD⟩)
  else if b < 0xF0 then ([], some ⟨2, 0x80, 0xBF, b - 0xE0⟩)
  else if b = 0xF0 then ([], some ⟨3, 0x90, 0xBF, 0⟩)
  else if b < 0xF4 then ([], some ⟨3, 0x80, 0xBF, b - 0xF0⟩)
  else if b = 0xF4 then ([], some ⟨3, 0x80, 0x8F, 4⟩)
  else ([replacement], none)

/-- what a character in the middle becomes when the text ends or goes on with another one -/
def flush : Option Partial → List Char
  | none => []
  | some _ => [replacement]

/-- one byte: the characters that it completes, and the character in the middle after it -/
def nextByte (b : Nat) : Option Partial → List Char × Option Partial
  | none => firstByte b
  | some p =>
    if p.low ≤ b ∧ b ≤ p.high then
      let value := p.value * 64 + (b - 0x80)
      if p.missing ≤ 1 then ([Char.ofNat value], none)
      else ([], some ⟨p.missing - 1, 0x80, 0xBF, value⟩)
    else (replacement :: (firstByte b).1, (firstByte b).2)

/-- the characters of the bytes that follow a character in the middle -/
def lossyFrom : Option Partial → List UInt8 → List Char
  | p, [] => flush p
  | p, b :: bs => (nextByte b.toNat p).1 ++ lossyFrom (nextByte b.toNat p).2 bs

def lossyChars (bs : List UInt8) : List Char := lossyFrom none bs

def fromUtf8Lossy (bs : List UInt8) : String := String.ofList (lossyChars bs)

/-! ## characters in the middle -/

def Partial.least (p : Partial) : Nat := (p.value * 64 + (p.low - 0x80)) * 64 ^ (p.missing - 1)

/-- the values that the character can get lie below -/
def Partial.bound (p : Partial) : Nat := (p.value * 64 + (p.high - 0x80) + 1) * 64 ^ (p.missing - 1)

/-- Every way to complete the character gives a scalar value from 128 on. -/
structure Partial.Fits (p : Partial) : Prop where
  missing : 1 ≤ p.missing
  low : 0x80 ≤ p.low
  least : 0x80 ≤ p.least
  scalar : p.bound ≤ 0xD800 ∨ (0xE000 ≤ p.least ∧ p.bound ≤ 0x110000)

/-- a character in the middle, if there is one, fits -/
def Fits (p : Option Partial) : Prop := ∀ q ∈ p, q.Fits

theorem fits_none : Fits none := fun _ h => nomatch h

theorem fits_some {p : Partial} (h : p.Fits) : Fits (some p) := by
  intro q hq
  cases hq
  exact h

theorem ofNat_ne_zero {n : Nat} (hp : 0 < n) (hv : n.isValidChar) :
    Char.ofNat n ≠ '\x00' := by
  intro h
  have hvl : (Char.ofNat n).toNat = 0 := congrArg Char.toNat h
  rw [Char.ofNat, dif_pos hv] at hvl
  exact Nat.ne_of_gt hp hvl

theorem replacement_ne_zero : replacement ≠ '\x00' := ofNat_ne_zero (by decide) (by decide)

theorem least_continued (m v : Nat) : Partial.least ⟨m + 1, 0x80, 0xBF, v⟩ = v * 64 ^ (m + 1) := by
  simp only [Partial.least, Nat.sub_self, Nat.add_zero, Nat.add_sub_cancel]
  rw [Nat.pow_succ', Nat.mul_assoc]

theorem bound_continued (m v : Nat) :
    Partial.bound ⟨m + 1, 0x80, 0xBF, v⟩ = (v + 1) * 64 ^ (m + 1) := by
  have h : v * 64 + (0xBF - 0x80) + 1 = (v + 1) * 64 := by omega
  simp only [Partial.bound, Nat.add_sub_cancel]
  rw [h, Nat.pow_succ', Nat.mul_assoc]

variable {p : Option Partial} {b v : Nat} {a bs : List UInt8}

theorem fits_continued {m : Nat} (hls : 0x80 ≤ v * 64 ^ (m + 1))
    (hsc : (v + 1) * 64 ^ (m + 1) ≤ 0xD800 ∨
      (0xE000 ≤ v * 64 ^ (m + 1) ∧ (v + 1) * 64 ^ (m + 1) ≤ 0x110000)) :
    Partial.Fits ⟨m + 1, 0x80, 0xBF, v⟩ := by
  refine ⟨Nat.le_add_left 1 m, Nat.le_refl 0x80, ?_, ?_⟩
  · rw [least_continued]
    exact hls
  · rw [least_continued, bound_continued]
    exact hsc

def NoZero (r : List Char × Option Partial) : Prop := '\x00' ∉ r.1 ∧ Fits r.2

theorem noZero_replaced : NoZero ([replacement], none) := by
  refine ⟨?_, fits_none⟩
  rw [mem_singleton]
  exact replacement_ne_zero.symm

theorem noZero_started {p : Partial} (h : p.Fits) : NoZero ([], some p) :=
  ⟨not_mem_nil, fits_some h⟩

theorem noZero_ite {c : Prop} [Decidable c] {r r' : List Char × Option Partial}
    (h : c → NoZero r) (h' : ¬ c → NoZero r') : NoZero (if c then r else r') := iteInduction h h'

theorem firstByte_spec (hb : 0 < b) (h256 : b < 256) : NoZero (firstByte b) := by
  refine noZero_ite (fun ha => ?_) fun _ => ?_
  · refine ⟨?_, fits_none⟩
    rw [mem_singleton]
    exact (ofNat_ne_zero hb (.inl (by omega))).symm
  refine noZero_ite (fun _ => noZero_replaced) fun _ => ?_
  -- two bytes
  refine noZero_ite (fun _ => ?_) fun _ => ?_
  · exact noZero_started (fits_continued (by omega) (by omega))
  -- three bytes: the first two ranges of the second byte are narrower
  refine noZero_ite (fun _ => ?_) fun _ => ?_
  · exact noZero_started (by constructor <;> decide)
  refine noZero_ite (fun _ => ?_) fun _ => ?_
  · exact noZero_started (by constructor <;> decide)
  refine noZero_ite (fun _ => ?_) fun _ => ?_
  · exact noZero_started (fits_continued (by omega) (by omega))
  -- four bytes: the first and the last range are
  refine noZero_ite (fun _ => ?_) fun _ => ?_
  · exact noZero_started (by constructor <;> decide)
  refine noZero_ite (fun _ => ?_) fun _ => ?_
  · exact noZero_started (fits_continued (by omega) (by omega))
  refine noZero_ite (fun _ => ?_) fun _ => noZero_replaced
  exact noZero_started (by constructor <;> decide)

section
variable {p : Partial} {b : Nat}

theorem Partial.narrows (hlw : 0x80 ≤ p.low) (hrn : p.low ≤ b ∧ b ≤ p.high) :
    p.least ≤ (p.value * 64 + (b - 0x80)) * 64 ^ (p.missing - 1) ∧
      (p.value * 64 + (b - 0x80) + 1) * 64 ^ (p.missing - 1) ≤ p.bound :=
  ⟨Nat.mul_le_mul_right _ (by omega), Nat.mul_le_mul_right _ (by omega)⟩

theorem Partial.Fits.last (hp : p.Fits) (hlt : p.missing ≤ 1)
    (hrn : p.low ≤ b ∧ b ≤ p.high) :
    0x80 ≤ p.value * 64 + (b - 0x80) ∧ (p.value * 64 + (b - 0x80)).isValidChar := by
  obtain ⟨_, hlw, hls, hsc⟩ := hp
  obtain ⟨h₁, h₂⟩ := Partial.narrows hlw hrn
  rw [Nat.sub_eq_zero_of_le hlt, Nat.pow_zero, Nat.mul_one] at h₁ h₂
  refine ⟨Nat.le_trans hls h₁, ?_⟩
  show _ < 0xD800 ∨ 0xDFFF < _ ∧ _ < 0x110000
  omega

theorem Partial.Fits.next (hp : p.Fits) (hmr : ¬ p.missing ≤ 1)
    (hrn : p.low ≤ b ∧ b ≤ p.high) :
    Partial.Fits ⟨p.missing - 1, 0x80, 0xBF, p.value * 64 + (b - 0x80)⟩ := by
  obtain ⟨_, hlw, hls, hsc⟩ := hp
  obtain ⟨h₁, h₂⟩ := Partial.narrows hlw hrn
  obtain ⟨m, hm⟩ : ∃ m, p.missing - 1 = m + 1 := ⟨p.missing - 2, by omega⟩
  rw [hm] at h₁ h₂ ⊢
  exact fits_continued (Nat.le_trans hls h₁) (by omega)

end

theorem nextByte_spec (hb : 0 < b) (h256 : b < 256) (hp : Fits p) : NoZero (nextByte b p) := by
  cases p with
  | none => exact firstByte_spec hb h256
  | some p =>
    have hft := hp p rfl
    unfold nextByte
    dsimp only
    split
    · next hrn =>
      split
      · next hls =>
        obtain ⟨hps, hv⟩ := hft.last hls hrn
        refine ⟨?_, fits_none⟩
        rw [mem_singleton]
        exact (ofNat_ne_zero (by omega) hv).symm
      · next hm => exact noZero_started (hft.next hm hrn)
    · obtain ⟨hfr, hr⟩ := firstByte_spec hb h256
      refine ⟨?_, hr⟩
      rw [mem_cons, not_or]
      exact ⟨replacement_ne_zero.symm, hfr⟩

/-! ## zero bytes -/

theorem zero_notMem_lossyFrom (h : 0 ∉ bs) (hp : Fits p) : '\x00' ∉ lossyFrom p bs := by
  induction bs generalizing p with
  | nil =>
    cases p with
    | none => exact not_mem_nil
    | some p =>
      rw [lossyFrom, flush, mem_singleton]
      exact replacement_ne_zero.symm
  | cons b bs ih =>
    rw [mem_cons, not_or] at h
    have hb : 0 < b.toNat := by
      apply Nat.pos_of_ne_zero
      intro hz
      exact h.1 (UInt8.toNat_inj.mp hz.symm)
    obtain ⟨hch, hft⟩ := nextByte_spec hb b.toNat_lt hp
    rw [lossyFrom, mem_append, not_or]
    exact ⟨hch, ih h.2 hft⟩

theorem zero_notMem_lossyChars (h : 0 ∉ bs) : '\x00' ∉ lossyChars bs :=
  zero_notMem_lossyFrom h fits_none

theorem nextByte_zero (hp : Fits p) : nextByte 0 p = (flush p ++ ['\x00'], none) := by
  cases p with
  | none => rfl
  | some p =>
    have hlw := (hp p rfl).low
    rw [nextByte, if_neg (by omega)]
    rfl

theorem lossyFrom_append_zero (ha : 0 ∉ a) (b : List UInt8) (hp : Fits p) :
    lossyFrom p (a ++ 0 :: b) = lossyFrom p a ++ '\x00' :: lossyChars b := by
  induction a generalizing p with
  | nil =>
    rw [nil_append, lossyFrom, lossyFrom, show (0 : UInt8).toNat = 0 from rfl,
      nextByte_zero hp, append_assoc]
    rfl
  | cons x a ih =>
    rw [mem_cons, not_or] at ha
    have hx : 0 < x.toNat := by
      apply Nat.pos_of_ne_zero
      intro hz
      exact ha.1 (UInt8.toNat_inj.mp hz.symm)
    rw [cons_append, lossyFrom, ih ha.2 (nextByte_spec hx x.toNat_lt hp).2, lossyFrom, append_assoc]

theorem lossyChars_append_zero (ha : 0 ∉ a) (b : List UInt8) :
    lossyChars (a ++ 0 :: b) = lossyChars a ++ '\x00' :: lossyChars b :=
  lossyFrom_append_zero ha b fits_none

/-! ## the bytes of a text -/

theorem utf8_eq_flatMap (s : String) : utf8 s = s.toList.flatMap String.utf8EncodeChar := by
  rw [utf8, ← String.utf8Encode_toList]
  exact toList_data_toByteArray

section
variable {n : Nat} {bs : List UInt8} {p : Partial}

theorem lossyFrom_first (hn : n < 256) :
    lossyFrom none (UInt8.ofNat n :: bs) = (firstByte n).1 ++ lossyFrom (firstByte n).2 bs := by
  rw [lossyFrom, UInt8.toNat_ofNat_of_lt' hn]
  rfl

theorem lossyFrom_next (hn : n < 256) (hrn : p.low ≤ n ∧ n ≤ p.high) (hm : ¬ p.missing ≤ 1) :
    lossyFrom (some p) (UInt8.ofNat n :: bs) =
      lossyFrom (some ⟨p.missing - 1, 0x80, 0xBF, p.value * 64 + (n - 0x80)⟩) bs := by
  rw [lossyFrom, UInt8.toNat_ofNat_of_lt' hn, nextByte, if_pos hrn, if_neg hm]
  rfl

theorem lossyFrom_last (hn : n < 256) (hrn : p.low ≤ n ∧ n ≤ p.high) (hls : p.missing ≤ 1) :
    lossyFrom (some p) (UInt8.ofNat n :: bs) =
      Char.ofNat (p.value * 64 + (n - 0x80)) :: lossyFrom none bs := by
  rw [lossyFrom, UInt8.toNat_ofNat_of_lt' hn, nextByte, if_pos hrn, if_pos hls]
  rfl

end

/-! ### the first bytes of characters -/

theorem firstByte_two (hlw : 0x7F < v) (hh : v ≤ 0x7FF) :
    firstByte (v / 64 % 32 + 192) = ([], some ⟨1, 0x80, 0xBF, v / 64⟩) := by
  have hvl : v / 64 % 32 + 192 - 0xC0 = v / 64 := by omega
  rw [firstByte, if_neg (by omega), if_neg (by omega), if_pos (by omega), hvl]

theorem firstByte_three (hlw : 0x7FF < v) (hh : v ≤ 0xFFFF)
    (hv : v < 0xD800 ∨ 0xDFFF < v ∧ v < 0x110000) :
    ∃ low high, firstByte (v / 4096 % 16 + 224) = ([], some ⟨2, low, high, v / 4096⟩) ∧
      low ≤ v / 64 % 64 + 128 ∧ v / 64 % 64 + 128 ≤ high := by
  rw [firstByte, if_neg (by omega), if_neg (by omega), if_neg (by omega)]
  split
  · exact ⟨0xA0, 0xBF, by rw [show v / 4096 = 0 by omega], by omega, by omega⟩
  · split
    · exact ⟨0x80, 0x9F, by rw [show v / 4096 = 0xD by omega], by omega, by omega⟩
    · rw [if_pos (by omega)]
      exact ⟨0x80, 0xBF, by rw [show v / 4096 % 16 + 224 - 0xE0 = v / 4096 by omega],
        by omega, by omega⟩

theorem firstByte_four (hlw : 0xFFFF < v) (hh : v < 0x110000) :
    ∃ low high, firstByte (v / 262144 % 8 + 240) = ([], some ⟨3, low, high, v / 262144⟩) ∧
      low ≤ v / 4096 % 64 + 128 ∧ v / 4096 % 64 + 128 ≤ high := by
  rw [firstByte, if_neg (by omega), if_neg (by omega), if_neg (by omega), if_neg (by omega),
    if_neg (by omega), if_neg (by omega)]
  split
  · exact ⟨0x90, 0xBF, by rw [show v / 262144 = 0 by omega], by omega, by omega⟩
  · split
    · exact ⟨0x80, 0xBF, by rw [show v / 262144 % 8 + 240 - 0xF0 = v / 262144 by omega],
        by omega, by omega⟩
    · rw [if_pos (by omega)]
      exact ⟨0x80, 0x8F, by rw [show v / 262144 = 4 by omega], by omega, by omega⟩

theorem lossyFrom_encodeChar (c : Char) (bs : List UInt8) :
    lossyFrom none (String.utf8EncodeChar c ++ bs) = c :: lossyFrom none bs := by
  have hv : c.val.toNat < 0xD800 ∨ 0xDFFF < c.val.toNat ∧ c.val.toNat < 0x110000 := c.valid
  have hc : Char.ofNat c.val.toNat = c := Char.ofNat_toNat c
  unfold String.utf8EncodeChar
  generalize c.val.toNat = v at hv hc
  have hls : v / 64 * 64 + (v % 64 + 128 - 0x80) = v := by omega
  have hm : v / 4096 * 64 + (v / 64 % 64 + 128 - 0x80) = v / 64 := by omega
  dsimp only
  split
  · rw [singleton_append, lossyFrom_first (by omega), firstByte, if_pos (by omega), hc]
    rfl
  · split
    · rw [cons_append, singleton_append, lossyFrom_first (by omega),
        firstByte_two (by omega) (by omega), nil_append,
        lossyFrom_last (by omega) (by simp only; omega) (by simp only; omega)]
      simp only [hls, hc]
    · split
      · obtain ⟨low, hi, hfr, hlw⟩ := firstByte_three (by omega) (by omega) hv
        rw [cons_append, cons_append, singleton_append,
          lossyFrom_first (by omega), hfr, nil_append,
          lossyFrom_next (by omega) hlw (by simp only; omega),
          lossyFrom_last (by omega) (by simp only; omega) (by simp only; omega)]
        simp only [hm, hls, hc]
      · obtain ⟨low, hi, hfr, hlw⟩ := firstByte_four (v := v) (by omega) (by omega)
        have hsc : v / 262144 * 64 + (v / 4096 % 64 + 128 - 0x80) = v / 4096 := by omega
        rw [cons_append, cons_append, cons_append, singleton_append,
          lossyFrom_first (by omega), hfr, nil_append,
          lossyFrom_next (by omega) hlw (by simp only; omega),
          lossyFrom_next (by omega) (by simp only; omega) (by simp only; omega),
          lossyFrom_last (by omega) (by simp only; omega) (by simp only; omega)]
        simp only [hsc, hm, hls, hc]

theorem lossyChars_utf8 (s : String) : lossyChars (utf8 s) = s.toList := by
  rw [utf8_eq_flatMap, lossyChars]
  induction s.toList with
  | nil => rfl
  | cons c l ih => rw [flatMap_cons, lossyFrom_encodeChar, ih]

@[simp] theorem fromUtf8Lossy_utf8 (s : String) : fromUtf8Lossy (utf8 s) = s := by
  rw [fromUtf8Lossy, lossyChars_utf8, String.ofList_toList]

theorem zero_mem_utf8 {s : String} : 0 ∈ utf8 s ↔ '\x00' ∈ s.toList := by
  rw [← lossyChars_utf8]
  constructor
  · intro h
    obtain ⟨a, b, hsp, ha⟩ := eq_append_cons_of_mem h
    rw [hsp, lossyChars_append_zero ha]
    exact mem_append_right _ mem_cons_self
  · intro h
    by_contra hnt
    exact zero_notMem_lossyChars hnt h

end Platform.Lib
