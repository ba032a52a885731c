/-!
# `WasmAssembly.Decimal.BinaryFormat`: binary floating point in exact arithmetic

A `BinaryFormat` is an interchange format for binary floats. A float without its sign is held by
its *magnitude*, the number that its exponent and fraction fields form; magnitudes are ordered as
the values are. `ratio` gives the exact value of a magnitude, and `nearest` the magnitude nearest
to a fraction, which goes to the even neighbour when two are equally near.
-/

set_option autoImplicit false

namespace WasmAssembly.Decimal

/-- The sizes of the fields of a binary float, in bits. -/
structure BinaryFormat where
  fractionBits : Nat
  exponentBits : Nat

namespace BinaryFormat

/-- Floats of 32 bits. -/
def binary32 : BinaryFormat := ⟨23, 8⟩

/-- Floats of 64 bits. -/
def binary64 : BinaryFormat := ⟨52, 11⟩

/-- The bit in front of the fraction. All values but the smallest have it. -/
def leadingBit (f : BinaryFormat) : Nat :=
  1 <<< f.fractionBits

/-- The power of two by which the least positive value is written. -/
def minExponent (f : BinaryFormat) : Int :=
  2 - (1 <<< (f.exponentBits - 1) : Nat) - f.fractionBits

/-- The magnitude of infinity. All finite values have smaller ones, all NaNs larger ones. -/
def infinity (f : BinaryFormat) : Nat :=
  ((1 <<< f.exponentBits) - 1) <<< f.fractionBits

/-- The bit that holds the sign. -/
def signBit (f : BinaryFormat) : Nat :=
  1 <<< (f.fractionBits + f.exponentBits)

/-- The whole number that a finite magnitude multiplies a power of two by. -/
def significand (f : BinaryFormat) (magnitude : Nat) : Nat :=
  if magnitude < f.leadingBit then magnitude
  else f.leadingBit + magnitude % f.leadingBit

/-- The exponent of that power of two. -/
def exponent (f : BinaryFormat) (magnitude : Nat) : Int :=
  f.minExponent + (magnitude / f.leadingBit - 1 : Nat)

/-- A whole number times a power of two, as numerator and denominator. -/
def scale (n : Nat) (exponent : Int) : Nat × Nat :=
  (n <<< exponent.toNat, 1 <<< (-exponent).toNat)

/-- The value of a finite magnitude, as numerator and denominator. -/
def ratio (f : BinaryFormat) (magnitude : Nat) : Nat × Nat :=
  scale (f.significand magnitude) (f.exponent magnitude)

/-- The whole number nearest to a fraction, the even one of two equally near. -/
def roundHalfEven (num den : Nat) : Nat :=
  let quotient := num / den
  let twice := 2 * (num % den)
  if twice < den ∨ (twice = den ∧ quotient % 2 = 0) then quotient else quotient + 1

/-- The exponent of the largest power of two that is at most a positive fraction. -/
def floorLog2 (num den : Nat) : Int :=
  let estimate : Int := num.log2 - den.log2
  if den <<< estimate.toNat ≤ num <<< (-estimate).toNat then estimate else estimate - 1

/-- The magnitude nearest to a fraction. Half a unit above the largest finite value and beyond,
this is infinity. -/
def nearest (f : BinaryFormat) (num den : Nat) : Nat :=
  if num = 0 then 0
  else
    let unit := max (floorLog2 num den - f.fractionBits) f.minExponent
    let units := roundHalfEven (num <<< (-unit).toNat) (den <<< unit.toNat)
    min ((unit - f.minExponent).toNat * f.leadingBit + units) f.infinity

/-- The magnitude nearest to a product. -/
def mul (f : BinaryFormat) (a b : Nat) : Nat :=
  let (an, ad) := f.ratio a
  let (bn, bd) := f.ratio b
  f.nearest (an * bn) (ad * bd)

/-- The magnitude nearest to a quotient. -/
def div (f : BinaryFormat) (a b : Nat) : Nat :=
  let (an, ad) := f.ratio a
  let (bn, bd) := f.ratio b
  f.nearest (an * bd) (ad * bn)

/-- The magnitude, in another format, nearest to the value of a magnitude. -/
def convert (source target : BinaryFormat) (magnitude : Nat) : Nat :=
  if source.infinity ≤ magnitude then target.infinity
  else
    let (num, den) := source.ratio magnitude
    target.nearest num den

end BinaryFormat

end WasmAssembly.Decimal
