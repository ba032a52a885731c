import WasmAssembly.Leb128.Signed
import WasmAssembly.Leb128.Unsigned

/-!
# `WasmAssembly.Bytes.Buffer`: the sink that encodings are written to

A `Buffer` grows at its end. `toList` is its view: each writer below appends some bytes to it
and changes nothing else, which the `toList_` lemmas say. Integers of the machine widths are
written in the fewest groups of seven bits.
-/

set_option autoImplicit false

namespace WasmAssembly

/-- A growable sequence of bytes. -/
structure Buffer where
  bytes : Array UInt8
  deriving DecidableEq, Inhabited

namespace Buffer

/-- The buffer that holds nothing. -/
def empty : Buffer := ⟨#[]⟩

/-- The bytes written so far. -/
def toList (b : Buffer) : Bytes := b.bytes.toList

/-- The number of bytes written so far. -/
def size (b : Buffer) : Nat := b.bytes.size

/-- Nothing has been written yet. -/
def isEmpty (b : Buffer) : Bool := b.bytes.isEmpty

/-- Nothing has been written to the empty buffer. -/
@[simp]
theorem toList_empty : empty.toList = [] := rfl

/-- A buffer counts its bytes. -/
@[simp]
theorem length_toList (b : Buffer) : b.toList.length = b.size := by
  simp [toList, size]

/-- Buffers with the same bytes are the same. -/
theorem ext_toList {a b : Buffer} (h : a.toList = b.toList) : a = b := by
  cases a; cases b; simpa [toList] using h

/-- Writes one byte. -/
def byte (b : Buffer) (x : UInt8) : Buffer := ⟨b.bytes.push x⟩

/-- One more byte is the last one. -/
@[simp]
theorem toList_byte (b : Buffer) (x : UInt8) : (b.byte x).toList = b.toList ++ [x] := by
  simp [toList, byte]

/-- Writes bytes as they are. -/
def append (b : Buffer) (xs : Bytes) : Buffer := ⟨b.bytes ++ xs⟩

/-- What is appended comes behind what is there. -/
@[simp]
theorem toList_append (b : Buffer) (xs : Bytes) : (b.append xs).toList = b.toList ++ xs := by
  simp [toList, append]

/-! ### Integers -/

/-- To shift a word by seven bits is to divide its number by 128. -/
theorem toNat_shiftRight_seven (v : UInt64) : (v >>> 7).toNat = v.toNat / 128 := by
  simp [UInt64.toNat_shiftRight, Nat.shiftRight_eq_div_pow]

/-- To shift a signed word by seven bits is to divide its integer by 128, rounding down. -/
theorem toInt_shiftRight_seven (v : Int64) : (v >>> 7).toInt = v.toInt / 128 := by
  rw [← Int64.toInt_toBitVec, Int64.toBitVec_shiftRight]
  simp [BitVec.sshiftRight', BitVec.toInt_sshiftRight, Int.shiftRight_eq_div_pow]

/-- Writes the groups of an unsigned word, counting from `written`. -/
def writeU64.go (b : Buffer) (v : UInt64) (written : Nat) : Buffer × Nat :=
  let low := v.toUInt8 &&& 0x7f
  let rest := v >>> 7
  if h : rest = 0 then (b.byte low, written + 1)
  else go (b.byte (low ||| 0x80)) rest (written + 1)
termination_by v.toNat
decreasing_by
  have h' : (v >>> 7).toNat ≠ 0 := fun h0 => h (UInt64.toNat_inj.mp h0)
  rw [toNat_shiftRight_seven] at h' ⊢
  omega

/-- Writes an unsigned word; also gives the number of bytes it took. -/
def writeU64 (b : Buffer) (v : UInt64) : Buffer × Nat :=
  writeU64.go b v 0

/-- Writes an unsigned word of 32 bits; also gives the number of bytes it took. -/
def writeU32 (b : Buffer) (v : UInt32) : Buffer × Nat :=
  b.writeU64 v.toUInt64

/-- The groups of a signed word that come after this one all repeat its sign. -/
def isLastGroup (rest : Int64) (low : UInt8) : Bool :=
  (rest == 0 && low &&& 0x40 == 0) || (rest == -1 && low &&& 0x40 != 0)

/-- Writes the groups of a signed word, counting from `written`. -/
def writeI64.go (b : Buffer) (v : Int64) (written : Nat) : Buffer × Nat :=
  let low := v.toUInt64.toUInt8 &&& 0x7f
  let rest := v >>> 7
  if isLastGroup rest low then (b.byte low, written + 1)
  else go (b.byte (low ||| 0x80)) rest (written + 1)
termination_by v.toInt.natAbs
decreasing_by
  rename_i h
  have h0 : v.toInt ≠ 0 := fun hv => by
    have : v = 0 := Int64.toInt_inj.mp hv
    subst this
    exact h (by decide)
  have h1 : v.toInt ≠ -1 := fun hv => by
    have : v = -1 := Int64.toInt_inj.mp hv
    subst this
    exact h (by decide)
  rw [toInt_shiftRight_seven]
  omega

/-- Writes a signed word; also gives the number of bytes it took. -/
def writeI64 (b : Buffer) (v : Int64) : Buffer × Nat :=
  writeI64.go b v 0

/-- Writes a signed word of 32 bits; also gives the number of bytes it took. -/
def writeI32 (b : Buffer) (v : Int32) : Buffer × Nat :=
  b.writeI64 v.toInt64

/-- Writes an unsigned word. -/
def u64 (b : Buffer) (v : UInt64) : Buffer := (b.writeU64 v).1

/-- Writes an unsigned word of 32 bits. -/
def u32 (b : Buffer) (v : UInt32) : Buffer := (b.writeU32 v).1

/-- Writes a signed word. -/
def i64 (b : Buffer) (v : Int64) : Buffer := (b.writeI64 v).1

/-- Writes a signed word of 32 bits. -/
def i32 (b : Buffer) (v : Int32) : Buffer := (b.writeI32 v).1

/-- Writes a count, a length or a position. -/
def count (b : Buffer) (n : Nat) : Buffer := b.append (Leb128.unsigned n)

/-- A count is written as an unsigned integer. -/
@[simp]
theorem toList_count (b : Buffer) (n : Nat) :
    (b.count n).toList = b.toList ++ Leb128.unsigned n := by
  simp [count]

/-! ### Floats, names and sized runs -/

/-- Writes the pattern of a 32-bit float, least significant byte first. -/
def f32 (b : Buffer) (pattern : UInt32) : Buffer :=
  b.append (Bytes.littleEndian 4 pattern.toNat)

/-- Writes the pattern of a 64-bit float, least significant byte first. -/
def f64 (b : Buffer) (pattern : UInt64) : Buffer :=
  b.append (Bytes.littleEndian 8 pattern.toNat)

/-- Writes the length of some bytes, then the bytes. -/
def sized (b : Buffer) (payload : Bytes) : Buffer :=
  (b.count payload.length).append payload

/-- A payload is written behind its length. -/
@[simp]
theorem toList_sized (b : Buffer) (payload : Bytes) :
    (b.sized payload).toList = b.toList ++ (Leb128.unsigned payload.length ++ payload) := by
  simp [sized]

/-- Writes a name: the length of its UTF-8 bytes, then the bytes. -/
def name (b : Buffer) (text : String) : Buffer := b.sized (Bytes.utf8 text)

/-- A name is written behind the length of its bytes. -/
@[simp]
theorem toList_name (b : Buffer) (text : String) :
    (b.name text).toList =
      b.toList ++ (Leb128.unsigned (Bytes.utf8 text).length ++ Bytes.utf8 text) := by
  simp [name]

end Buffer

/-- The binary form of a name. -/
def encodeName (text : String) : Bytes :=
  (Buffer.empty.name text).toList

end WasmAssembly
