import WasmAssembly.Decimal.Scaled
import WasmAssembly.Json.Reader

/-!
# `WasmAssembly.Json.Number`: reading numbers

A number without fraction and exponent is an integer if it fits 64 bits, and is then read exactly;
every other number is a float. Of the digits of a float, as many are kept as fit 64 bits; the
others count only as far as they stand before the point.
-/

set_option autoImplicit false

namespace WasmAssembly.Json

/-- A number that has been read. -/
inductive Number where
  /-- An integer from 0 to `2 ^ 64 - 1`. -/
  | nonneg (n : Nat)
  /-- The integer `-n`, with `n` from 1 to `2 ^ 63`. -/
  | negative (n : Nat)
  /-- A finite float of 64 bits, by sign and magnitude. -/
  | float (isNegative : Bool) (magnitude : Nat)
  deriving DecidableEq

/-- The first number that does not fit the significand. -/
def significandLimit : Nat := UInt64.size

/-- Reads digits as long as the number they form is below `significandLimit`. Gives that number,
how many digits it took, and the bytes from the first digit left out. -/
def readDigits (n : Nat) (taken : Nat) : Bytes → Nat × Nat × Bytes
  | [] => (n, taken, [])
  | b :: rest =>
    if Decimal.isDigit b then
      let next := n * 10 + Decimal.digitValue b
      if next < significandLimit then readDigits next (taken + 1) rest
      else (n, taken, b :: rest)
    else (n, taken, b :: rest)

/-- How many digits some bytes begin with, and the bytes after them. -/
def countDigits (counted : Nat) : Bytes → Nat × Bytes
  | [] => (counted, [])
  | b :: rest =>
    if Decimal.isDigit b then countDigits (counted + 1) rest else (counted, b :: rest)

/-- The value of a run of digits. -/
def readAllDigits (n : Nat) : Bytes → Nat × Bytes
  | [] => (n, [])
  | b :: rest =>
    if Decimal.isDigit b then readAllDigits (n * 10 + Decimal.digitValue b) rest
    else (n, b :: rest)

/-- A float, unless it is too large. -/
def makeFloat (isNegative : Bool) (significand : Nat) (power : Int) : Except Fault Number :=
  match Decimal.floatOfDecimal? significand power with
  | some magnitude => .ok (.float isNegative magnitude)
  | none => .error .malformed

/-- Reads an exponent after its mark. -/
def readExponent (isNegative : Bool) (significand : Nat) (power : Int) (s : Bytes) :
    Except Fault (Number × Bytes) :=
  let isDown := s.head? == some 0x2d
  match skipSign s with
  | [] => .error .truncated
  | b :: rest =>
    if Decimal.isDigit b then
      let (n, rest) := readAllDigits 0 (b :: rest)
      let power := if isDown then power - n else power + n
      (makeFloat isNegative significand power).map fun number => (number, rest)
    else .error .malformed

/-- Reads an exponent, if there is one. -/
def readScale (isNegative : Bool) (significand : Nat) (power : Int) (s : Bytes) :
    Except Fault (Number × Bytes) :=
  match s with
  | b :: rest =>
    if isExponentMark b then readExponent isNegative significand power rest
    else (makeFloat isNegative significand power).map fun number => (number, s)
  | [] => (makeFloat isNegative significand power).map fun number => (number, s)

/-- Reads a fraction after the point, and an exponent if there is one. -/
def readFraction (isNegative : Bool) (significand : Nat) (power : Int) (s : Bytes) :
    Except Fault (Number × Bytes) :=
  match s with
  | [] => .error .truncated
  | b :: _ =>
    if Decimal.isDigit b then
      let (significand, taken, rest) := readDigits significand 0 s
      readScale isNegative significand (power - taken) (skipDigits rest)
    else .error .malformed

/-- Reads what follows the whole part of a float. -/
def readFloatTail (isNegative : Bool) (significand : Nat) (power : Int) (s : Bytes) :
    Except Fault (Number × Bytes) :=
  match s with
  | b :: rest =>
    if b = 0x2e then readFraction isNegative significand power rest
    else readScale isNegative significand power s
  | [] => readScale isNegative significand power s

/-- A whole number with a sign. Minus zero, and what does not fit 64 bits with its sign, is a
float. -/
def wholeNumber (isNegative : Bool) (n : Nat) : Number :=
  if !isNegative then .nonneg n
  else if 1 ≤ n ∧ n ≤ 1 <<< 63 then .negative n
  else .float true (Decimal.BinaryFormat.binary64.nearest n 1)

/-- Reads what follows the digits of the whole part that fit the significand. -/
def readWholeTail (isNegative : Bool) (n : Nat) (s : Bytes) : Except Fault (Number × Bytes) :=
  match s with
  | [] => .ok (wholeNumber isNegative n, [])
  | b :: _ =>
    if Decimal.isDigit b then
      let (power, rest) := countDigits 0 s
      readFloatTail isNegative n power rest
    else if b = 0x2e ∨ isExponentMark b then readFloatTail isNegative n 0 s
    else .ok (wholeNumber isNegative n, s)

/-- Reads a number after its sign. There are no leading zeros. -/
def readUnsigned (isNegative : Bool) (s : Bytes) : Except Fault (Number × Bytes) :=
  match s with
  | [] => .error .truncated
  | b :: rest =>
    if b = 0x30 then
      if rest.head?.any Decimal.isDigit then .error .malformed
      else readWholeTail isNegative 0 rest
    else if Decimal.isDigit b then
      let (n, _, rest) := readDigits 0 0 s
      readWholeTail isNegative n rest
    else .error .malformed

/-- A byte begins a number. -/
def startsNumber (b : UInt8) : Bool := b == 0x2d || Decimal.isDigit b

/-- Reads a number, given its first byte. -/
def readNumber (b : UInt8) (rest : Bytes) : Except Fault (Number × Bytes) :=
  if b = 0x2d then readUnsigned true rest else readUnsigned false (b :: rest)

end WasmAssembly.Json
