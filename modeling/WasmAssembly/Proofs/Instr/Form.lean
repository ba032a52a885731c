import WasmAssembly.Instr.Basic
import WasmAssembly.Proofs.Vocabulary.Form

/-!
# `WasmAssembly.Proofs.Instr.Form`: the binary form of instructions

An instruction is an opcode and its immediates (`Instr.toBytes_eq`). The immediate of a block is one
signed integer (`BlockType.encode_form`): the byte of a value type and that of a block without
values are negative numbers of one group, and a type index is not negative.
-/

set_option autoImplicit false

namespace WasmAssembly

open Leb128 (signed unsigned)

/-! ### Block types -/

/-- A byte between 64 and 127 is the encoding of a negative number. -/
theorem signed_sub_of_byte {code : UInt8} (hlow : 64 ≤ code.toNat) (hhigh : code.toNat < 128) :
    signed ((code.toNat : Int) - 128) = [code] := by
  have hgroup : Leb128.lowGroup ((code.toNat : Int) - 128) = code.toNat := by
    unfold Leb128.lowGroup
    omega
  have hends : Leb128.endsWithGroup ((code.toNat : Int) - 128) := by
    refine Or.inr ⟨by omega, ?_⟩
    rw [hgroup]
    exact hlow
  rw [Leb128.signed_of_ends hends, hgroup, UInt8.ofNat_toNat]

/-- The codes of value types are bytes that signed integers of one group are written as. -/
theorem ValType.code_bounds (t : ValType) : 64 < t.code.toNat ∧ t.code.toNat < 128 := by
  cases t <;> decide

namespace BlockType

/-- The integer that a block type is written as. -/
def toInt : BlockType → Int
  | empty => (emptyCode.toNat : Int) - 128
  | value type => (type.code.toNat : Int) - 128
  | func index => index.toNat

/-- A block type is written as one signed integer. -/
theorem encode_form (b : Buffer) (t : BlockType) :
    (encode b t).toList = b.toList ++ signed t.toInt := by
  cases t with
  | empty =>
      rw [toInt, signed_sub_of_byte (by decide) (by decide)]
      exact Buffer.toList_byte b emptyCode
  | value type =>
      obtain ⟨hlow, hhigh⟩ := type.code_bounds
      rw [toInt, signed_sub_of_byte (by omega) hhigh]
      exact type.encode_form b
  | func index =>
      -- An index of 32 bits is the same number as a signed word of 64 bits.
      have hlt := index.toNat_lt
      have hint : (Int64.ofNat index.toNat).toInt = index.toNat :=
        Int64.toInt_ofNat_of_lt (by omega)
      show (b.i64 (Int64.ofNat index.toNat)).toList = _
      rw [Buffer.toList_i64, hint, toInt]

instance : LawfulEncode BlockType := .of_form encode_form

/-- The bytes of a block type are those of its integer. -/
theorem toBytes_eq (t : BlockType) : toBytes t = signed t.toInt :=
  toBytes_of_form encode_form t

end BlockType

/-! ### Memory accesses -/

namespace MemArg

/-- A memory access is written as its alignment and its offset. -/
theorem encode_form (b : Buffer) (arg : MemArg) :
    (encode b arg).toList
      = b.toList ++ (unsigned arg.align.toNat ++ unsigned arg.offset.toNat) := by
  show ((b.u32 arg.align).u32 arg.offset).toList = _
  rw [Buffer.toList_u32, Buffer.toList_u32, List.append_assoc]

instance : LawfulEncode MemArg := .of_form encode_form

/-- The bytes of a memory access are those of its two numbers. -/
theorem toBytes_eq (arg : MemArg) :
    toBytes arg = unsigned arg.align.toNat ++ unsigned arg.offset.toNat :=
  toBytes_of_form encode_form arg

end MemArg

/-! ### Instructions -/

namespace Instr

/-- The first byte of an instruction. -/
def opcode : Instr → UInt8
  | unreachable => 0x00
  | nop => 0x01
  | block _ => 0x02
  | loop _ => 0x03
  | ifBlock _ => 0x04
  | elseBlock => 0x05
  | endBlock => 0x0b
  | br _ => 0x0c
  | brIf _ => 0x0d
  | ret => 0x0f
  | call _ => 0x10
  | drop => 0x1a
  | select => 0x1b
  | localGet _ => 0x20
  | localSet _ => 0x21
  | localTee _ => 0x22
  | globalGet _ => 0x23
  | globalSet _ => 0x24
  | load op _ => op.opcode
  | store op _ => op.opcode
  | memorySize => 0x3f
  | memoryGrow => 0x40
  | i32Const _ => 0x41
  | i64Const _ => 0x42
  | f32Const _ => 0x43
  | f64Const _ => 0x44
  | numeric op => op.opcode

/-- The bytes behind the opcode. -/
def immediates : Instr → Bytes
  | block type | loop type | ifBlock type => toBytes type
  | br index | brIf index | call index | localGet index | localSet index | localTee index
  | globalGet index | globalSet index => unsigned index.toNat
  | load _ arg | store _ arg => toBytes arg
  | memorySize | memoryGrow => [0x00]
  | i32Const value => signed value.toInt
  | i64Const value => signed value.toInt
  | f32Const pattern => Bytes.littleEndian 4 pattern.toNat
  | f64Const pattern => Bytes.littleEndian 8 pattern.toNat
  | unreachable | nop | elseBlock | endBlock | ret | drop | select | numeric _ => []

/-- An instruction is written as its opcode and its immediates. -/
theorem encode_form (b : Buffer) (i : Instr) :
    (encode b i).toList = b.toList ++ i.opcode :: i.immediates := by
  show (encodeInto b i).toList = _
  cases i <;>
    simp only [encodeInto, opcode, immediates, toList_encode, Buffer.toList_byte,
      Buffer.toList_u32, Buffer.toList_i32, Buffer.toList_i64, Buffer.toList_f32,
      Buffer.toList_f64, List.append_assoc, List.singleton_append]

instance : LawfulEncode Instr := .of_form encode_form

/-- The bytes of an instruction are its opcode and its immediates. -/
theorem toBytes_eq (i : Instr) : toBytes i = i.opcode :: i.immediates :=
  toBytes_of_form encode_form i

end Instr

end WasmAssembly
