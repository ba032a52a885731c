import WasmAssembly.Bytes

/-!
# `WasmAssembly.Decimal.Digits`: whole numbers in decimal

The digits of a number as ASCII bytes, most significant first, without leading zeros, and a sign if
it is negative. `word?` goes the other way, from digits with any leading zeros to a number that fits
a word.
-/

set_option autoImplicit false

namespace WasmAssembly.Decimal

/-- The byte of a digit. -/
def digitByte (d : Nat) : UInt8 := UInt8.ofNat (48 + d)

/-- A byte is a digit. -/
def isDigit (b : UInt8) : Bool := 48 ≤ b && b ≤ 57

/-- The value of a digit byte. -/
def digitValue (b : UInt8) : Nat := b.toNat - 48

/-- The digits of a number. -/
def digits (n : Nat) : Bytes :=
  if n < 10 then [digitByte n] else digits (n / 10) ++ [digitByte (n % 10)]
termination_by n

/-- A whole number, negative or not. -/
def integer (z : Int) : Bytes :=
  if z < 0 then 0x2d :: digits z.natAbs else digits z.natAbs

/-- A word with one more digit behind those it was read from, unless that is too large a number. -/
def appendDigit? (word : UInt32) (digit : UInt8) : Option UInt32 :=
  let n := 10 * word.toNat + digitValue digit
  if n < UInt32.size then some (UInt32.ofNat n) else none

/-- The word of 32 bits that some digits denote, read from the first one on. -/
def word? (digits : Bytes) : Option UInt32 :=
  digits.foldlM appendDigit? 0

end WasmAssembly.Decimal
