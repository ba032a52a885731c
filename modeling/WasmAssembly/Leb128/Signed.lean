import WasmAssembly.Bytes
import WasmAssembly.Leb128.Width

/-!
# `WasmAssembly.Leb128.Signed`: signed integers

A signed integer is written in two's complement, in groups of seven bits as an unsigned one is.
Bit 6 of the last group is the sign, so the encoding ends at the first group whose sign bit
agrees with all the bits above it. `signed` is that encoding for every integer,
`encodeSigned` produces it for a value that must fit a width, and `decodeSigned` reads it back,
padded or not, from the front of some bytes.
-/

set_option autoImplicit false

namespace WasmAssembly.Leb128

/-- The low group of an integer. -/
def lowGroup (z : Int) : Nat :=
  (z % 128).toNat

/-- The low group tells the whole integer: all bits above it equal its sign bit. -/
def endsWithGroup (z : Int) : Prop :=
  (z / 128 = 0 ∧ lowGroup z < 64) ∨ (z / 128 = -1 ∧ 64 ≤ lowGroup z)

instance (z : Int) : Decidable (endsWithGroup z) :=
  inferInstanceAs (Decidable (_ ∨ _))

/-- What is left for further groups is nearer to zero, so there is an end. -/
theorem natAbs_div_lt_of_not_endsWithGroup {z : Int} (h : ¬endsWithGroup z) :
    (z / 128).natAbs < z.natAbs := by
  simp only [endsWithGroup, lowGroup] at h
  omega

/-- The encoding of an integer, with no group more than it needs. -/
def signed (z : Int) : Bytes :=
  if endsWithGroup z then [UInt8.ofNat (lowGroup z)]
  else UInt8.ofNat (lowGroup z + 128) :: signed (z / 128)
termination_by z.natAbs
decreasing_by exact natAbs_div_lt_of_not_endsWithGroup ‹_›

/-- The encoding of an integer in at most `room` bytes. -/
def encodeSigned.groups (w : Width) : (room : Nat) → Int → Except Error Bytes
  | 0, _ => .error (.overlong w w.maxBytes)
  | room + 1, z =>
    if endsWithGroup z then .ok [UInt8.ofNat (lowGroup z)]
    else (groups w room (z / 128)).map (UInt8.ofNat (lowGroup z + 128) :: ·)

/-- The encoding of `value` at a width of `bits` bits, if it lies between `-2 ^ (bits - 1)` and
`2 ^ (bits - 1) - 1`. -/
def encodeSigned (bits : Nat) (value : Int) : Except Error Bytes := do
  let w ← Width.make bits true
  if value < w.minSigned ∨ w.maxSigned < value then
    .error (.outOfRange (toString value) w)
  else
    encodeSigned.groups w w.maxBytes value

/-- A last group with fewer than seven bits of the width left to fill must repeat the sign in
all the bits above them. -/
def signFits (remaining group : Nat) : Prop :=
  remaining < 7 →
    group >>> (remaining - 1) = 0 ∨ group >>> (remaining - 1) = 127 >>> (remaining - 1)

instance (remaining group : Nat) : Decidable (signFits remaining group) :=
  inferInstanceAs (Decidable (_ → _))

/-- The word with the sign of its last group, bit 6, in all bits from `filled` on. A word that is
filled up has no such bits. -/
def Word.extendSign (word : Word) (filled group : Nat) : Word :=
  if filled < maxBits ∧ group.testBit 6 then word ||| BitVec.allOnes maxBits <<< filled else word

/-- Puts groups into `word` until one without continuation bit, with `read` bytes already read. The
result counts all bytes read. -/
def decodeSigned.groups (w : Width) :
    (read : Nat) → (word : Word) → Bytes → Except Error (Int × Nat)
  | read, _, [] => .error (.unexpectedEnd read)
  | read, word, b :: rest =>
    let last := b.toNat < 128
    let shift := 7 * read
    let remaining := w.bits - shift
    let group := b.toNat % 128
    if ¬last ∧ read + 1 = w.maxBytes then .error (.overlong w w.maxBytes)
    else if last ∧ ¬signFits remaining group then .error (.excessBits w)
    else if last then .ok (((word.put shift group).extendSign (shift + 7) group).toInt, read + 1)
    else groups w (read + 1) (word.put shift group) rest

/-- The integer of `bits` bits encoded at the front of `bytes`, and how many bytes it takes. -/
def decodeSigned (bits : Nat) (bytes : Bytes) : Except Error (Int × Nat) := do
  let w ← Width.make bits true
  decodeSigned.groups w 0 0 bytes

end WasmAssembly.Leb128
