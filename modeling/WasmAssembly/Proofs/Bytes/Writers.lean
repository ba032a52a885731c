import WasmAssembly.Proofs.Bytes.Buffer
import WasmAssembly.Proofs.Leb128.Checked

/-!
# `WasmAssembly.Proofs.Bytes.Writers`: two ways to write an integer

The encoders `encodeUnsigned` and `encodeSigned` are told a bit count, check the value against it
and give at most the bytes that it allows. The writers of a buffer take a machine word and check
nothing. `WrittenAs` says that some bytes are the result of both: the writer appends and counts
them, and the encoder gives them at every bit count that admits the value.

The main statement is `write_eq_encode`: for each word the bytes of `unsigned` or `signed` are such
bytes. No bit count goes into these, so which one an encoder is told does not show in what it gives.
-/

set_option autoImplicit false

namespace WasmAssembly.Buffer

open Leb128

/-- Some bytes are what a writer makes of a value, and what an encoder makes of it at those bit
counts from 1 to 128 that admit it. -/
structure WrittenAs (write : Buffer → Buffer × Nat) (encode : Nat → Except Error Bytes)
    (admits : Nat → Prop) (e : Bytes) : Prop where
  /-- The writer puts the bytes behind what is in the buffer. -/
  appended : ∀ out, (write out).1.toList = out.toList ++ e
  /-- The writer gives the number of the bytes. -/
  counted : ∀ out, (write out).2 = e.length
  /-- The encoder gives the bytes exactly where the value is admitted. -/
  encoded : ∀ bits, encode bits = .ok e ↔ (1 ≤ bits ∧ bits ≤ 128) ∧ admits bits

/-- A writer that appends the encoding of a natural number agrees with the checked encoder. -/
theorem writtenAs_unsigned {write : Buffer → Buffer × Nat} {value : Nat}
    (h : ∀ out, write out = (out.append (unsigned value), (unsigned value).length)) :
    WrittenAs write (encodeUnsigned · value) (value ≤ 2 ^ · - 1) (unsigned value) where
  appended out := by rw [h, toList_append]
  counted out := by rw [h]
  encoded bits := by
    rw [encodeUnsigned_eq_ok]
    exact and_iff_left rfl

/-- A writer that appends the encoding of an integer agrees with the checked encoder. -/
theorem writtenAs_signed {write : Buffer → Buffer × Nat} {value : Int}
    (h : ∀ out, write out = (out.append (signed value), (signed value).length)) :
    WrittenAs write (encodeSigned · value)
      (fun bits => -(2 ^ (bits - 1) : Nat) ≤ value ∧ value ≤ (2 ^ (bits - 1) : Nat) - 1)
      (signed value) where
  appended out := by rw [h, toList_append]
  counted out := by rw [h]
  encoded bits := by
    rw [encodeSigned_eq_ok]
    exact and_iff_left rfl

/-- Machine words are written as the encoders write them. Whatever is in the buffer, the writers of
unsigned and signed words of 64 and of 32 bits append and count the bytes that the encoder gives at
each bit count whose range holds the word. -/
theorem write_eq_encode :
    (∀ v : UInt64, WrittenAs (writeU64 · v) (encodeUnsigned · v.toNat) (v.toNat ≤ 2 ^ · - 1)
      (unsigned v.toNat)) ∧
    (∀ v : UInt32, WrittenAs (writeU32 · v) (encodeUnsigned · v.toNat) (v.toNat ≤ 2 ^ · - 1)
      (unsigned v.toNat)) ∧
    (∀ v : Int64, WrittenAs (writeI64 · v) (encodeSigned · v.toInt)
      (fun bits => -(2 ^ (bits - 1) : Nat) ≤ v.toInt ∧ v.toInt ≤ (2 ^ (bits - 1) : Nat) - 1)
      (signed v.toInt)) ∧
    ∀ v : Int32, WrittenAs (writeI32 · v) (encodeSigned · v.toInt)
      (fun bits => -(2 ^ (bits - 1) : Nat) ≤ v.toInt ∧ v.toInt ≤ (2 ^ (bits - 1) : Nat) - 1)
      (signed v.toInt) := by
  refine ⟨?_, ?_, ?_, ?_⟩
  · intro v
    exact writtenAs_unsigned (writeU64_eq · v)
  · intro v
    -- A word of 32 bits is written as the wider word of the same number.
    refine writtenAs_unsigned ?_
    intro out
    rw [writeU32, writeU64_eq, UInt32.toNat_toUInt64]
  · intro v
    exact writtenAs_signed (writeI64_eq · v)
  · intro v
    -- What is filled up on the left repeats the sign, so the integer is the same.
    refine writtenAs_signed ?_
    intro out
    rw [writeI32, writeI64_eq, Int32.toInt_toInt64]

-- The smallest word of 64 bits. Its last group is the sign alone.
example : (empty.writeI64 (-9223372036854775808)).1.toList
    = [0x80, 0x80, 0x80, 0x80, 0x80, 0x80, 0x80, 0x80, 0x80, 0x7f] := by decide +kernel

end WasmAssembly.Buffer
