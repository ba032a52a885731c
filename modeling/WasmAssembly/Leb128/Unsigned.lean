import WasmAssembly.Bytes
import WasmAssembly.Leb128.Width

/-!
# `WasmAssembly.Leb128.Unsigned`: unsigned integers

A number is written in groups of seven bits, the least significant group first, one byte a
group; the high bit of a byte says that another byte follows. `unsigned` is that encoding for
every natural number. `encodeUnsigned` produces it for a value that must fit a width, and
`decodeUnsigned` reads it back, padded or not, from the front of some bytes.
-/

set_option autoImplicit false

namespace WasmAssembly.Leb128

/-- The encoding of a number, with no group more than it needs. -/
def unsigned (n : Nat) : Bytes :=
  if n < 128 then [UInt8.ofNat n] else UInt8.ofNat (n % 128 + 128) :: unsigned (n / 128)
termination_by n

/-- The encoding of a number in at most `room` bytes. -/
def encodeUnsigned.groups (w : Width) : (room : Nat) → Nat → Except Error Bytes
  | 0, _ => .error (.overlong w w.maxBytes)
  | room + 1, n =>
    if n / 128 = 0 then .ok [UInt8.ofNat (n % 128)]
    else (groups w room (n / 128)).map (UInt8.ofNat (n % 128 + 128) :: ·)

/-- The encoding of `value` at a width of `bits` bits, if it is at most `2 ^ bits - 1`. -/
def encodeUnsigned (bits : Nat) (value : Nat) : Except Error Bytes := do
  let w ← Width.make bits false
  if w.maxUnsigned < value then
    .error (.outOfRange (toString value) w)
  else
    encodeUnsigned.groups w w.maxBytes value

/-- Puts groups into `word` until one without continuation bit, with `read` bytes already read. The
result counts all bytes read. -/
def decodeUnsigned.groups (w : Width) :
    (read : Nat) → (word : Word) → Bytes → Except Error (Nat × Nat)
  | read, _, [] => .error (.unexpectedEnd read)
  | read, word, b :: rest =>
    let last := b.toNat < 128
    let shift := 7 * read
    let remaining := w.bits - shift
    let group := b.toNat % 128
    if ¬last ∧ read + 1 = w.maxBytes then .error (.overlong w w.maxBytes)
    else if remaining < 7 ∧ group >>> remaining ≠ 0 then .error (.excessBits w)
    else if last then .ok ((word.put shift group).toNat, read + 1)
    else groups w (read + 1) (word.put shift group) rest

/-- The number of `bits` bits encoded at the front of `bytes`, and how many bytes it takes. -/
def decodeUnsigned (bits : Nat) (bytes : Bytes) : Except Error (Nat × Nat) := do
  let w ← Width.make bits false
  decodeUnsigned.groups w 0 0 bytes

end WasmAssembly.Leb128
