import Mathlib.Data.Rat.Floor
import Mathlib.Data.Int.Log

/-!
# Floating-point numbers

The code computes scores and weights in `f64`.  It enters through the operations that the code
uses; nothing is assumed about them here, so what is proved holds with every rounding.  `Float` is
the machine's own type.  `ℚ` is exact arithmetic, for runs on concrete inputs.
-/

namespace Platform.Core

/-- the operations of `f64` that the code uses -/
class F64 (F : Type) where
  zero : F
  /-- `x as f64` -/
  ofU64 : UInt64 → F
  ofU16 : UInt16 → F
  add : F → F → F
  mul : F → F → F
  div : F → F → F
  /-- `f64::max`, which passes over a NaN -/
  max : F → F → F
  lt : F → F → Bool
  /-- `x as u16`: the fraction is cut off, and what is out of range goes to the nearest bound -/
  toU16 : F → UInt16
  toBits : F → UInt64
  isFinite : F → Bool

instance : F64 Float where
  zero := 0
  ofU64 := UInt64.toFloat
  ofU16 := UInt16.toFloat
  add := Float.add
  mul := Float.mul
  div := Float.div
  max x y := if x.isNaN then y else if y.isNaN then x else if x < y then y else x
  lt x y := decide (x < y)
  toU16 := Float.toUInt16
  toBits := Float.toBits
  isFinite := Float.isFinite

/-- the layout of a `f64`: sign, exponent, fraction; exact on the normal numbers of the format -/
def ratBits (q : ℚ) : UInt64 :=
  if q = 0 then 0
  else
    let e := Int.log 2 |q|
    let sign := if q < 0 then 2 ^ 63 else 0
    let fraction := ⌊|q| * (2 : ℚ) ^ (52 - e)⌋.toNat - 2 ^ 52
    .ofNat (sign + (e + 1023).toNat * 2 ^ 52 + fraction)

instance : F64 ℚ where
  zero := 0
  ofU64 x := x.toNat
  ofU16 x := x.toNat
  add x y := x + y
  mul x y := x * y
  div x y := x / y
  max x y := if x < y then y else x
  lt x y := decide (x < y)
  toU16 x := .ofNat (min ⌊x⌋.toNat 65535)
  toBits := ratBits
  isFinite _ := true

example : ratBits (1 / 2) = 0x3fe0000000000000 := by decide +kernel

/-- the further operations with which two weights are compared -/
class F64Sub (F : Type) extends F64 F where
  sub : F → F → F
  abs : F → F
  /-- the literal `0.001` -/
  thousandth : F

instance : F64Sub Float where
  sub := Float.sub
  abs := Float.abs
  thousandth := 0.001

instance : F64Sub ℚ where
  sub x y := x - y
  abs x := |x|
  thousandth := 1 / 1000

end Platform.Core
