import WasmAssembly.Decimal.BinaryFormat

/-!
# `WasmAssembly.Decimal.Scaled`: floats from digits and an exponent

A decimal that is read has a significand of at most 64 bits and a power of ten. The significand is
rounded to a float first, and the result is then multiplied or divided by the float nearest to the
power of ten. Powers beyond the range of floats are reached in steps.
-/

set_option autoImplicit false

namespace WasmAssembly.Decimal

/-- The largest power of ten that is a finite float. -/
def maxPowerOfTen : Nat := 308

/-- The float nearest to a power of ten. -/
def powerOfTen (n : Nat) : Nat := BinaryFormat.binary64.nearest (Nat.pow 10 n) 1

/-- A float times a power of ten, or nothing if that is beyond the largest finite float. -/
def scaleByTen? (magnitude : Nat) (power : Int) : Option Nat :=
  if power.natAbs ≤ maxPowerOfTen then
    if 0 ≤ power then
      let product := BinaryFormat.binary64.mul magnitude (powerOfTen power.toNat)
      if product < BinaryFormat.binary64.infinity then some product else none
    else
      some (BinaryFormat.binary64.div magnitude (powerOfTen (-power).toNat))
  else if magnitude = 0 then some 0
  else if 0 ≤ power then none
  else
    scaleByTen? (BinaryFormat.binary64.div magnitude (powerOfTen maxPowerOfTen))
      (power + maxPowerOfTen)
termination_by power.natAbs
decreasing_by simp only [maxPowerOfTen] at *; omega

/-- The float of a significand times a power of ten, or nothing if it is too large. -/
def floatOfDecimal? (significand : Nat) (power : Int) : Option Nat :=
  scaleByTen? (BinaryFormat.binary64.nearest significand 1) power

end WasmAssembly.Decimal
