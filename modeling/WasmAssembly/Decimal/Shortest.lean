import WasmAssembly.Decimal.BinaryFormat
import WasmAssembly.Decimal.Digits

/-!
# `WasmAssembly.Decimal.Shortest`: floats in the fewest digits

The decimals that round to a float form an interval around its value. `shortest` finds the
coarsest grid of multiples of a power of ten that has a point in this interval; this point has the
fewest digits of all decimals that read back as the float, and of two such points the one nearer to
the value is taken. `Layout` says how digits and exponent are then written.
-/

set_option autoImplicit false

namespace WasmAssembly.Decimal

namespace BinaryFormat

/-- The value of a float and the interval that rounds to it, as multiples of one unit. The ends
belong to the interval iff the significand is even. -/
structure Interval where
  low : Nat
  value : Nat
  high : Nat
  closed : Bool
  /-- The unit, as numerator and denominator. -/
  unit : Nat × Nat

/-- The interval of a finite positive magnitude. It reaches half way to the next float on either
side; the next one below is only half as far away when the significand is the least of its
exponent. -/
def interval (f : BinaryFormat) (magnitude : Nat) : Interval :=
  let c := f.significand magnitude
  let below := if c = f.leadingBit ∧ 2 * f.leadingBit ≤ magnitude then 1 else 2
  { low := 4 * c - below
    value := 4 * c
    high := 4 * c + 2
    closed := c % 2 = 0
    unit := scale 1 (f.exponent magnitude - 2) }

/-- The multiple of `10 ^ power` in an interval that is nearest to the value, if there is one. Only
the multiples next to the value have to be looked at. -/
def Interval.multiple? (i : Interval) (power : Int) : Option Nat :=
  let up := i.unit.1 * Nat.pow 10 (-power).toNat
  let down := i.unit.2 * Nat.pow 10 power.toNat
  let lower := i.value * up / down
  let upper := lower + 1
  let lowerHits := i.low * up < lower * down || (i.closed && i.low * up == lower * down)
  let upperHits := upper * down < i.high * up || (i.closed && upper * down == i.high * up)
  if lowerHits && upperHits then
    let toLower := i.value * up - lower * down
    let toUpper := upper * down - i.value * up
    if toLower < toUpper ∨ (toLower = toUpper ∧ lower % 2 = 0) then some lower else some upper
  else if lowerHits then some lower
  else if upperHits then some upper
  else none

/-- The first power of ten, going down from `power`, that has a multiple in an interval. -/
def Interval.search (i : Interval) (power : Int) : (steps : Nat) → Nat × Int
  | 0 => (0, power)
  | steps + 1 =>
    match i.multiple? power with
    | some digits => (digits, power)
    | none => i.search (power - 1) steps

/-- Digits and a power of ten, whose product has the fewest digits of all decimals that read back
as a finite positive magnitude. No float is above `10 ^ 310`, and none needs a finer grid than
`10 ^ -1080`. -/
def shortest (f : BinaryFormat) (magnitude : Nat) : Nat × Int :=
  (f.interval magnitude).search 310 1390

end BinaryFormat

/-- How a decimal is written. Let `10 ^ k` be the least power of ten above it. -/
structure Layout where
  /-- The largest `k` for which all digits before the point are written. -/
  maxPositional : Int
  /-- The least `k` for which the zeros after the point are written. -/
  minPositional : Int

namespace Layout

/-- Floats of 32 bits. -/
def binary32 : Layout := ⟨13, -5⟩

/-- Floats of 64 bits. -/
def binary64 : Layout := ⟨16, -4⟩

/-- The byte of the decimal point. -/
def point : UInt8 := 0x2e

/-- A number of zero digits. -/
def zeros (n : Nat) : Bytes := List.replicate n (digitByte 0)

/-- An exponent. It has its sign, whether negative or not. -/
def exponent (z : Int) : Bytes :=
  0x65 :: (if z < 0 then 0x2d else 0x2b) :: digits z.natAbs

/-- The text of digits times a power of ten. There is a point, with a digit after it, unless an
exponent is written after a single digit. -/
def text (layout : Layout) (significand : Nat) (power : Int) : Bytes :=
  let ds := digits significand
  let k : Int := ds.length + power
  if k ≤ layout.maxPositional ∧ 0 ≤ power then
    ds ++ zeros power.toNat ++ [point, digitByte 0]
  else if k ≤ layout.maxPositional ∧ 0 < k then
    ds.take k.toNat ++ point :: ds.drop k.toNat
  else if layout.minPositional ≤ k ∧ k ≤ 0 then
    digitByte 0 :: point :: zeros (-k).toNat ++ ds
  else
    let fraction := if ds.length = 1 then [] else point :: ds.drop 1
    ds.take 1 ++ fraction ++ exponent (k - 1)

end Layout

/-- The text of a finite magnitude. -/
def BinaryFormat.text (f : BinaryFormat) (layout : Layout) (magnitude : Nat) : Bytes :=
  if magnitude = 0 then [digitByte 0, Layout.point, digitByte 0]
  else
    let (significand, power) := f.shortest magnitude
    layout.text significand power

end WasmAssembly.Decimal
