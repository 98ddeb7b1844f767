import Mathlib.Data.Nat.Bitwise
import Platform.Lib.Binary

/-!
# Bytes as big-endian numbers

Lists of one length are compared byte by byte as the numbers they stand for (`beNat_lt_iff`), and
`xor` is a metric on them (`beNat_xor_triangle`).
-/

namespace Platform.Lib
open List

def beNat : List UInt8 → Nat
  | [] => 0
  | b :: bs => b.toNat * 256 ^ bs.length + beNat bs

theorem beNat_lt (bs : List UInt8) : beNat bs < 256 ^ bs.length := by
  induction bs with
  | nil => exact Nat.one_pos
  | cons b bs ih =>
    have hb : (b.toNat + 1) * 256 ^ bs.length ≤ 256 * 256 ^ bs.length :=
      Nat.mul_le_mul_right _ b.toNat_lt
    rw [beNat, length_cons, Nat.pow_succ']
    rw [Nat.add_mul] at hb
    omega

theorem beNat_lt_iff {x y : List UInt8} (h : x.length = y.length) : beNat x < beNat y ↔ x < y := by
  induction x generalizing y with
  | nil =>
    obtain rfl := length_eq_zero_iff.mp h.symm
    simp
  | cons a x ih =>
    obtain ⟨b, y, rfl⟩ := exists_cons_of_length_eq_add_one h.symm
    have hl : x.length = y.length := Nat.succ.inj h
    have hx := beNat_lt x
    have hy := beNat_lt y
    rw [hl] at hx
    rw [beNat, beNat, hl, cons_lt_cons_iff, ← ih hl, UInt8.lt_iff_toNat_lt, ← UInt8.toNat_inj]
    rcases Nat.lt_trichotomy a.toNat b.toNat with hab | hab | hab
    · have hstep := Nat.mul_le_mul_right (256 ^ y.length) hab
      rw [Nat.succ_mul] at hstep
      exact iff_of_true (by omega) (.inl hab)
    · simp [hab]
    · have hstep := Nat.mul_le_mul_right (256 ^ y.length) hab
      rw [Nat.succ_mul] at hstep
      exact iff_of_false (by omega) (by omega)

theorem beNat_inj {x y : List UInt8} (h : x.length = y.length) (heq : beNat x = beNat y) :
    x = y := by
  refine List.le_antisymm (fun hlt => ?_) (fun hlt => ?_)
  · have hgt := (beNat_lt_iff h.symm).mpr hlt
    omega
  · have hgt := (beNat_lt_iff h).mpr hlt
    omega

theorem beNat_reverse (bs : List UInt8) : beNat bs.reverse = leNat bs := by
  have ha : ∀ (bs : List UInt8) (b : UInt8), beNat (bs ++ [b]) = beNat bs * 256 + b.toNat := by
    intro bs b
    induction bs with
    | nil => simp [beNat]
    | cons c bs ih =>
      rw [cons_append, beNat, beNat, ih, length_append, length_singleton, Nat.pow_succ]
      ring
  induction bs with
  | nil => rfl
  | cons b bs ih =>
    rw [reverse_cons, ha, ih, leNat]
    omega

/-- A smaller list of the same length stays smaller, whatever follows it. -/
theorem append_lt {x y : List UInt8} (h : x.length = y.length) (hlt : x < y) (r : List UInt8) :
    x ++ r < y := by
  induction x generalizing y with
  | nil =>
    rw [length_eq_zero_iff.mp h.symm] at hlt
    exact absurd hlt (List.lt_irrefl [])
  | cons a x ih =>
    obtain ⟨b, y, rfl⟩ := exists_cons_of_length_eq_add_one h.symm
    refine cons_lt_cons_iff.mpr ((cons_lt_cons_iff.mp hlt).imp_right ?_)
    exact And.imp_right fun hr => ih (Nat.succ.inj h) hr

theorem beNat_xor_eq_zero_iff {x y : List UInt8} (h : x.length = y.length) :
    beNat (zipWith (· ^^^ ·) x y) = 0 ↔ x = y := by
  induction x generalizing y with
  | nil => simp [length_eq_zero_iff.mp h.symm, beNat]
  | cons a x ih =>
    obtain ⟨b, y, rfl⟩ := exists_cons_of_length_eq_add_one h.symm
    have hby : (a ^^^ b).toNat = 0 ↔ a = b := by
      rw [← UInt8.toNat_zero, UInt8.toNat_inj, UInt8.xor_eq_zero_iff]
    rw [zipWith_cons_cons, beNat, Nat.add_eq_zero_iff, Nat.mul_eq_zero, hby,
      ih (Nat.succ.inj h), cons.injEq, or_iff_left (Nat.pow_pos (by decide)).ne']

theorem xor_le_add (m n : Nat) : m ^^^ n ≤ m + n := by
  induction m using Nat.strongRecOn generalizing n with
  | ind m ih =>
    by_cases hm : m = 0
    · simp [hm]
    · have hh := ih (m / 2) (by omega) (n / 2)
      have hdv : (m ^^^ n) / 2 = m / 2 ^^^ n / 2 := Nat.xor_div_two
      have hmd : (m ^^^ n) % 2 = (m + n) % 2 := Nat.xor_mod_two_eq
      omega

theorem beNat_xor_triangle {x y z : List UInt8} (hxy : x.length = y.length)
    (hyz : y.length = z.length) : beNat (zipWith (· ^^^ ·) x z) ≤
      beNat (zipWith (· ^^^ ·) x y) + beNat (zipWith (· ^^^ ·) y z) := by
  induction x generalizing y z with
  | nil => simp [beNat]
  | cons a x ih =>
    obtain ⟨b, y, rfl⟩ := exists_cons_of_length_eq_add_one hxy.symm
    obtain ⟨c, z, rfl⟩ := exists_cons_of_length_eq_add_one hyz.symm
    have hx : x.length = y.length := Nat.succ.inj hxy
    have hz : y.length = z.length := Nat.succ.inj hyz
    have hby : (a ^^^ c).toNat ≤ (a ^^^ b).toNat + (b ^^^ c).toNat := by
      have hac : a ^^^ c = (a ^^^ b) ^^^ (b ^^^ c) := by
        rw [UInt8.xor_assoc, ← UInt8.xor_assoc b b c, UInt8.xor_self, UInt8.zero_xor]
      rw [hac, UInt8.toNat_xor]
      exact xor_le_add _ _
    have hm := Nat.mul_le_mul_right (256 ^ z.length) hby
    have hr := ih hx hz
    simp only [zipWith_cons_cons, beNat, length_zipWith, hx, hz, Nat.min_self]
    rw [Nat.add_mul] at hm
    omega

end Platform.Lib
