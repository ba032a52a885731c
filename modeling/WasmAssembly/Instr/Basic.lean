import WasmAssembly.Instr.Numeric
import WasmAssembly.Vocabulary.ConstExpr

/-!
# `WasmAssembly.Instr.Basic`: instructions

The instructions that function bodies are made of, and their binary form: an opcode of one byte,
then the immediates. Memory accesses are grouped by what they have in common, as are the numeric
instructions of `Instr.Numeric`: `LoadOp`, `StoreOp` and `NumericOp` give each its opcode and its
types.
-/

set_option autoImplicit false

namespace WasmAssembly

/-- The type of a block: no values, one result, or a signature by its type index. -/
inductive BlockType where
  | empty
  | value (type : ValType)
  | func (index : UInt32)
  deriving DecidableEq, Inhabited

/-- The byte that stands for a block without values. -/
def BlockType.emptyCode : UInt8 := 0x40

/-- A type index is written signed, so that it is told apart from the codes of value types, which
are negative numbers of one byte. -/
instance : Encode BlockType where
  encode b
    | .empty => b.byte BlockType.emptyCode
    | .value type => encode b type
    | .func index => b.i64 (Int64.ofNat index.toNat)

/-- The alignment of a memory access, as a power of two, and its offset. -/
structure MemArg where
  align : UInt32
  offset : UInt32
  deriving DecidableEq, Inhabited

instance : Encode MemArg where
  encode b arg := (b.u32 arg.align).u32 arg.offset

/-- An instruction that reads memory. The bits that a narrow read leaves open are filled with copies
of the sign (`S`) or with zeros (`U`). -/
inductive LoadOp where
  | i32
  | i64
  | f32
  | f64
  | i32From8S
  | i32From8U
  | i32From16S
  | i32From16U
  | i64From8S
  | i64From8U
  | i64From16S
  | i64From16U
  | i64From32S
  | i64From32U
  deriving DecidableEq, Inhabited

namespace LoadOp

/-- Every load. -/
def all : List LoadOp :=
  [i32, i64, f32, f64, i32From8S, i32From8U, i32From16S, i32From16U, i64From8S, i64From8U,
    i64From16S, i64From16U, i64From32S, i64From32U]

/-- The opcode of a load. -/
def opcode : LoadOp → UInt8
  | i32 => 0x28
  | i64 => 0x29
  | f32 => 0x2a
  | f64 => 0x2b
  | i32From8S => 0x2c
  | i32From8U => 0x2d
  | i32From16S => 0x2e
  | i32From16U => 0x2f
  | i64From8S => 0x30
  | i64From8U => 0x31
  | i64From16S => 0x32
  | i64From16U => 0x33
  | i64From32S => 0x34
  | i64From32U => 0x35

/-- The type of the value that is read. -/
def valType : LoadOp → ValType
  | i32 | i32From8S | i32From8U | i32From16S | i32From16U => .i32
  | i64 | i64From8S | i64From8U | i64From16S | i64From16U | i64From32S | i64From32U => .i64
  | f32 => .f32
  | f64 => .f64

/-- The number of bytes read, as a power of two. -/
def sizeLog2 : LoadOp → Nat
  | i32From8S | i32From8U | i64From8S | i64From8U => 0
  | i32From16S | i32From16U | i64From16S | i64From16U => 1
  | i32 | f32 | i64From32S | i64From32U => 2
  | i64 | f64 => 3

end LoadOp

/-- An instruction that writes memory. A narrow write takes the low bits alone. -/
inductive StoreOp where
  | i32
  | i64
  | f32
  | f64
  | i32To8
  | i32To16
  | i64To8
  | i64To16
  | i64To32
  deriving DecidableEq, Inhabited

namespace StoreOp

/-- Every store. -/
def all : List StoreOp := [i32, i64, f32, f64, i32To8, i32To16, i64To8, i64To16, i64To32]

/-- The opcode of a store. -/
def opcode : StoreOp → UInt8
  | i32 => 0x36
  | i64 => 0x37
  | f32 => 0x38
  | f64 => 0x39
  | i32To8 => 0x3a
  | i32To16 => 0x3b
  | i64To8 => 0x3c
  | i64To16 => 0x3d
  | i64To32 => 0x3e

/-- The type of the value that is written. -/
def valType : StoreOp → ValType
  | i32 | i32To8 | i32To16 => .i32
  | i64 | i64To8 | i64To16 | i64To32 => .i64
  | f32 => .f32
  | f64 => .f64

/-- The number of bytes written, as a power of two. -/
def sizeLog2 : StoreOp → Nat
  | i32To8 | i64To8 => 0
  | i32To16 | i64To16 => 1
  | i32 | f32 | i64To32 => 2
  | i64 | f64 => 3

end StoreOp

/-- An instruction. -/
inductive Instr where
  | unreachable
  | nop
  | block (type : BlockType)
  | loop (type : BlockType)
  | ifBlock (type : BlockType)
  | elseBlock
  | endBlock
  | br (depth : UInt32)
  | brIf (depth : UInt32)
  | ret
  | call (function : UInt32)
  | drop
  | select
  | localGet (index : UInt32)
  | localSet (index : UInt32)
  | localTee (index : UInt32)
  | globalGet (index : UInt32)
  | globalSet (index : UInt32)
  | load (op : LoadOp) (arg : MemArg)
  | store (op : StoreOp) (arg : MemArg)
  | memorySize
  | memoryGrow
  | i32Const (value : Int32)
  | i64Const (value : Int64)
  | f32Const (pattern : UInt32)
  | f64Const (pattern : UInt64)
  | numeric (op : NumericOp)
  deriving DecidableEq, Inhabited

namespace Instr

/-- Writes an opcode and the immediates after it. The two memory instructions carry a zero byte,
the number of the one memory. -/
def encodeInto (b : Buffer) : Instr → Buffer
  | unreachable => b.byte 0x00
  | nop => b.byte 0x01
  | block type => encode (b.byte 0x02) type
  | loop type => encode (b.byte 0x03) type
  | ifBlock type => encode (b.byte 0x04) type
  | elseBlock => b.byte 0x05
  | endBlock => b.byte 0x0b
  | br depth => (b.byte 0x0c).u32 depth
  | brIf depth => (b.byte 0x0d).u32 depth
  | ret => b.byte 0x0f
  | call function => (b.byte 0x10).u32 function
  | drop => b.byte 0x1a
  | select => b.byte 0x1b
  | localGet index => (b.byte 0x20).u32 index
  | localSet index => (b.byte 0x21).u32 index
  | localTee index => (b.byte 0x22).u32 index
  | globalGet index => (b.byte 0x23).u32 index
  | globalSet index => (b.byte 0x24).u32 index
  | load op arg => encode (b.byte op.opcode) arg
  | store op arg => encode (b.byte op.opcode) arg
  | memorySize => (b.byte 0x3f).byte 0x00
  | memoryGrow => (b.byte 0x40).byte 0x00
  | i32Const value => (b.byte 0x41).i32 value
  | i64Const value => (b.byte 0x42).i64 value
  | f32Const pattern => (b.byte 0x43).f32 pattern
  | f64Const pattern => (b.byte 0x44).f64 pattern
  | numeric op => b.byte op.opcode

instance : Encode Instr where
  encode := encodeInto

end Instr

end WasmAssembly
