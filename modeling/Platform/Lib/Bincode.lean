import Mathlib.Data.List.Basic
import Mathlib.Tactic.Ring

/-!
# Binary encodings

The layout of `bincode` 1.x with its default options: an unsigned integer is its little-endian
bytes, an array its bytes one after the other, an option a tag byte (`0` or `1`) and then the value,
a string or a vector its length as a `u64` and then its contents.  A record is the concatenation of
its fields, so records are told apart by cutting at the field widths (`List.append_inj`).
-/

namespace Platform.Lib

/-- the `n` lowest base-256 digits of `x`, least significant first -/
def leBytes : Nat → Nat → List UInt8
  | 0, _ => []
  | n + 1, x => UInt8.ofNat x :: leBytes n (x / 256)

@[simp] theorem length_leBytes (n x : Nat) : (leBytes n x).length = n := by
  induction n generalizing x with
  | zero => rfl
  | succ n ih => simp [leBytes, ih]

theorem leBytes_inj (n x y : Nat) (hx : x < 256 ^ n) (hy : y < 256 ^ n)
    (h : leBytes n x = leBytes n y) : x = y := by
  induction n generalizing x y with
  | zero => omega
  | succ n ih =>
    simp only [leBytes, List.cons.injEq] at h
    obtain ⟨hlw, hh⟩ := h
    have hdv : x / 256 = y / 256 := ih _ _ (by omega) (by omega) hh
    have hm : x % 256 = y % 256 := by
      have h2 := congrArg UInt8.toNat hlw
      simpa using h2
    omega

/-- `u64`: eight little-endian bytes -/
def encodeU64 (x : UInt64) : List UInt8 := leBytes 8 x.toNat

@[simp] theorem length_encodeU64 (x : UInt64) : (encodeU64 x).length = 8 := length_leBytes 8 _

theorem encodeU64_inj {x y : UInt64} (h : encodeU64 x = encodeU64 y) : x = y := by
  have hx : x.toNat < 256 ^ 8 := lt_of_lt_of_eq x.toNat_lt (by norm_num)
  have hy : y.toNat < 256 ^ 8 := lt_of_lt_of_eq y.toNat_lt (by norm_num)
  exact UInt64.toNat.inj (leBytes_inj 8 _ _ hx hy h)

/-- `u16`: two little-endian bytes -/
def encodeU16 (x : UInt16) : List UInt8 := leBytes 2 x.toNat

theorem encodeU16_inj {x y : UInt16} (h : encodeU16 x = encodeU16 y) : x = y := by
  have hx : x.toNat < 256 ^ 2 := lt_of_lt_of_eq x.toNat_lt (by norm_num)
  have hy : y.toNat < 256 ^ 2 := lt_of_lt_of_eq y.toNat_lt (by norm_num)
  exact UInt16.toNat.inj (leBytes_inj 2 _ _ hx hy h)

def encodeString (s : String) : List UInt8 :=
  encodeU64 (.ofNat s.toUTF8.size) ++ s.toUTF8.toList

def encodeVec {α : Type*} (f : α → List UInt8) (l : List α) : List UInt8 :=
  encodeU64 (.ofNat l.length) ++ l.flatMap f

/-- `Option<T>`: the tag byte, then the value -/
def encodeOption {α : Type*} (f : α → List UInt8) : Option α → List UInt8
  | none => [0]
  | some a => 1 :: f a

end Platform.Lib
