import WasmAssembly.Leb128.Signed
import WasmAssembly.Leb128.Unsigned

/-!
# `WasmAssembly.Bytes.Take`: reading from the front

Each reader takes one item from the front of some bytes and gives the bytes after it, or fails.
Integers may be padded up to the width they are read at.
-/

set_option autoImplicit false

namespace WasmAssembly.Bytes

/-- An unsigned integer of `bits` bits, and the bytes after it. -/
def takeUnsigned? (bits : Nat) (bytes : Bytes) : Option (Nat × Bytes) :=
  match Leb128.decodeUnsigned bits bytes with
  | .ok (n, read) => some (n, bytes.drop read)
  | .error _ => none

/-- An unsigned integer of 32 bits, as a word, and the bytes after it. -/
def takeU32? (bytes : Bytes) : Option (UInt32 × Bytes) :=
  (takeUnsigned? 32 bytes).map fun (n, rest) => (UInt32.ofNat n, rest)

/-- A signed integer of `bits` bits, and the bytes after it. -/
def takeSigned? (bits : Nat) (bytes : Bytes) : Option (Int × Bytes) :=
  match Leb128.decodeSigned bits bytes with
  | .ok (z, read) => some (z, bytes.drop read)
  | .error _ => none

/-- A number of `count` bytes, least significant first, and the bytes after it. -/
def takeLittleEndian? (count : Nat) (bytes : Bytes) : Option (Nat × Bytes) :=
  let word := bytes.take count
  if word.length = count then some (ofLittleEndian word, bytes.drop count) else none

end WasmAssembly.Bytes
