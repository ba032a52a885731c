import WasmAssembly.Vocabulary.ValType

/-!
# `WasmAssembly.Instr.Numeric`: numeric instructions

The instructions that take numbers from the stack and put one back. None has an immediate, so each
is told by its opcode alone. Where the sign of an integer matters, a name ends in `S` or `U`; the
name of a conversion starts with the type of the result and goes on with that of the operand.
-/

set_option autoImplicit false

namespace WasmAssembly

/-- An instruction that takes numbers from the stack and puts one back. -/
inductive NumericOp where
  | i32Eqz
  | i32Eq | i32Ne | i32LtS | i32LtU | i32GtS | i32GtU | i32LeS | i32LeU | i32GeS | i32GeU
  | i64Eqz
  | i64Eq | i64Ne | i64LtS | i64LtU | i64GtS | i64GtU | i64LeS | i64LeU | i64GeS | i64GeU
  | f32Eq | f32Ne | f32Lt | f32Gt | f32Le | f32Ge
  | f64Eq | f64Ne | f64Lt | f64Gt | f64Le | f64Ge
  | i32Clz | i32Ctz | i32Popcnt
  | i32Add | i32Sub | i32Mul | i32DivS | i32DivU | i32RemS | i32RemU | i32And | i32Or | i32Xor
  | i32Shl | i32ShrS | i32ShrU | i32Rotl | i32Rotr
  | i64Clz | i64Ctz | i64Popcnt
  | i64Add | i64Sub | i64Mul | i64DivS | i64DivU | i64RemS | i64RemU | i64And | i64Or | i64Xor
  | i64Shl | i64ShrS | i64ShrU | i64Rotl | i64Rotr
  | f32Abs | f32Neg | f32Ceil | f32Floor | f32Trunc | f32Nearest | f32Sqrt
  | f32Add | f32Sub | f32Mul | f32Div | f32Min | f32Max | f32Copysign
  | f64Abs | f64Neg | f64Ceil | f64Floor | f64Trunc | f64Nearest | f64Sqrt
  | f64Add | f64Sub | f64Mul | f64Div | f64Min | f64Max | f64Copysign
  | i32WrapI64 | i32TruncF32S | i32TruncF32U | i32TruncF64S | i32TruncF64U
  | i64ExtendI32S | i64ExtendI32U | i64TruncF32S | i64TruncF32U | i64TruncF64S | i64TruncF64U
  | f32ConvertI32S | f32ConvertI32U | f32ConvertI64S | f32ConvertI64U | f32DemoteF64
  | f64ConvertI32S | f64ConvertI32U | f64ConvertI64S | f64ConvertI64U | f64PromoteF32
  | i32ReinterpretF32 | i64ReinterpretF64 | f32ReinterpretI32 | f64ReinterpretI64
  | i32Extend8S | i32Extend16S | i64Extend8S | i64Extend16S | i64Extend32S
  deriving DecidableEq, Inhabited

namespace NumericOp

/-- Every numeric instruction. -/
def all : List NumericOp :=
  [i32Eqz,
    i32Eq, i32Ne, i32LtS, i32LtU, i32GtS, i32GtU, i32LeS, i32LeU, i32GeS, i32GeU,
    i64Eqz,
    i64Eq, i64Ne, i64LtS, i64LtU, i64GtS, i64GtU, i64LeS, i64LeU, i64GeS, i64GeU,
    f32Eq, f32Ne, f32Lt, f32Gt, f32Le, f32Ge,
    f64Eq, f64Ne, f64Lt, f64Gt, f64Le, f64Ge,
    i32Clz, i32Ctz, i32Popcnt,
    i32Add, i32Sub, i32Mul, i32DivS, i32DivU, i32RemS, i32RemU, i32And, i32Or, i32Xor,
    i32Shl, i32ShrS, i32ShrU, i32Rotl, i32Rotr,
    i64Clz, i64Ctz, i64Popcnt,
    i64Add, i64Sub, i64Mul, i64DivS, i64DivU, i64RemS, i64RemU, i64And, i64Or, i64Xor,
    i64Shl, i64ShrS, i64ShrU, i64Rotl, i64Rotr,
    f32Abs, f32Neg, f32Ceil, f32Floor, f32Trunc, f32Nearest, f32Sqrt,
    f32Add, f32Sub, f32Mul, f32Div, f32Min, f32Max, f32Copysign,
    f64Abs, f64Neg, f64Ceil, f64Floor, f64Trunc, f64Nearest, f64Sqrt,
    f64Add, f64Sub, f64Mul, f64Div, f64Min, f64Max, f64Copysign,
    i32WrapI64, i32TruncF32S, i32TruncF32U, i32TruncF64S, i32TruncF64U,
    i64ExtendI32S, i64ExtendI32U, i64TruncF32S, i64TruncF32U, i64TruncF64S, i64TruncF64U,
    f32ConvertI32S, f32ConvertI32U, f32ConvertI64S, f32ConvertI64U, f32DemoteF64,
    f64ConvertI32S, f64ConvertI32U, f64ConvertI64S, f64ConvertI64U, f64PromoteF32,
    i32ReinterpretF32, i64ReinterpretF64, f32ReinterpretI32, f64ReinterpretI64,
    i32Extend8S, i32Extend16S, i64Extend8S, i64Extend16S, i64Extend32S]

/-- The opcode of a numeric instruction. -/
def opcode : NumericOp → UInt8
  | i32Eqz => 0x45
  | i32Eq => 0x46 | i32Ne => 0x47 | i32LtS => 0x48 | i32LtU => 0x49 | i32GtS => 0x4a
  | i32GtU => 0x4b | i32LeS => 0x4c | i32LeU => 0x4d | i32GeS => 0x4e | i32GeU => 0x4f
  | i64Eqz => 0x50
  | i64Eq => 0x51 | i64Ne => 0x52 | i64LtS => 0x53 | i64LtU => 0x54 | i64GtS => 0x55
  | i64GtU => 0x56 | i64LeS => 0x57 | i64LeU => 0x58 | i64GeS => 0x59 | i64GeU => 0x5a
  | f32Eq => 0x5b | f32Ne => 0x5c | f32Lt => 0x5d | f32Gt => 0x5e | f32Le => 0x5f | f32Ge => 0x60
  | f64Eq => 0x61 | f64Ne => 0x62 | f64Lt => 0x63 | f64Gt => 0x64 | f64Le => 0x65 | f64Ge => 0x66
  | i32Clz => 0x67 | i32Ctz => 0x68 | i32Popcnt => 0x69
  | i32Add => 0x6a | i32Sub => 0x6b | i32Mul => 0x6c | i32DivS => 0x6d | i32DivU => 0x6e
  | i32RemS => 0x6f | i32RemU => 0x70 | i32And => 0x71 | i32Or => 0x72 | i32Xor => 0x73
  | i32Shl => 0x74 | i32ShrS => 0x75 | i32ShrU => 0x76 | i32Rotl => 0x77 | i32Rotr => 0x78
  | i64Clz => 0x79 | i64Ctz => 0x7a | i64Popcnt => 0x7b
  | i64Add => 0x7c | i64Sub => 0x7d | i64Mul => 0x7e | i64DivS => 0x7f | i64DivU => 0x80
  | i64RemS => 0x81 | i64RemU => 0x82 | i64And => 0x83 | i64Or => 0x84 | i64Xor => 0x85
  | i64Shl => 0x86 | i64ShrS => 0x87 | i64ShrU => 0x88 | i64Rotl => 0x89 | i64Rotr => 0x8a
  | f32Abs => 0x8b | f32Neg => 0x8c | f32Ceil => 0x8d | f32Floor => 0x8e | f32Trunc => 0x8f
  | f32Nearest => 0x90 | f32Sqrt => 0x91
  | f32Add => 0x92 | f32Sub => 0x93 | f32Mul => 0x94 | f32Div => 0x95 | f32Min => 0x96
  | f32Max => 0x97 | f32Copysign => 0x98
  | f64Abs => 0x99 | f64Neg => 0x9a | f64Ceil => 0x9b | f64Floor => 0x9c | f64Trunc => 0x9d
  | f64Nearest => 0x9e | f64Sqrt => 0x9f
  | f64Add => 0xa0 | f64Sub => 0xa1 | f64Mul => 0xa2 | f64Div => 0xa3 | f64Min => 0xa4
  | f64Max => 0xa5 | f64Copysign => 0xa6
  | i32WrapI64 => 0xa7 | i32TruncF32S => 0xa8 | i32TruncF32U => 0xa9 | i32TruncF64S => 0xaa
  | i32TruncF64U => 0xab
  | i64ExtendI32S => 0xac | i64ExtendI32U => 0xad | i64TruncF32S => 0xae | i64TruncF32U => 0xaf
  | i64TruncF64S => 0xb0 | i64TruncF64U => 0xb1
  | f32ConvertI32S => 0xb2 | f32ConvertI32U => 0xb3 | f32ConvertI64S => 0xb4
  | f32ConvertI64U => 0xb5 | f32DemoteF64 => 0xb6
  | f64ConvertI32S => 0xb7 | f64ConvertI32U => 0xb8 | f64ConvertI64S => 0xb9
  | f64ConvertI64U => 0xba | f64PromoteF32 => 0xbb
  | i32ReinterpretF32 => 0xbc | i64ReinterpretF64 => 0xbd | f32ReinterpretI32 => 0xbe
  | f64ReinterpretI64 => 0xbf
  | i32Extend8S => 0xc0 | i32Extend16S => 0xc1 | i64Extend8S => 0xc2 | i64Extend16S => 0xc3
  | i64Extend32S => 0xc4

/-- The numeric instruction with an opcode, if there is one. -/
def ofOpcode? (code : UInt8) : Option NumericOp :=
  all.find? (·.opcode == code)

/-- One operand and one result, which may differ in type. -/
def conversion (operand result : ValType) : FuncType := ⟨[operand], [result]⟩

/-- One operand, and a result of its type. -/
def unary (type : ValType) : FuncType := ⟨[type], [type]⟩

/-- Two operands of one type, and a result of this type. -/
def binary (type : ValType) : FuncType := ⟨[type, type], [type]⟩

/-- Two operands of one type, and a truth value. -/
def comparison (type : ValType) : FuncType := ⟨[type, type], [.i32]⟩

/-- The operands taken, and the result. -/
def signature : NumericOp → FuncType
  | i32Eqz => conversion .i32 .i32
  | i64Eqz => conversion .i64 .i32
  | i32Eq | i32Ne | i32LtS | i32LtU | i32GtS | i32GtU | i32LeS | i32LeU | i32GeS | i32GeU =>
    comparison .i32
  | i64Eq | i64Ne | i64LtS | i64LtU | i64GtS | i64GtU | i64LeS | i64LeU | i64GeS | i64GeU =>
    comparison .i64
  | f32Eq | f32Ne | f32Lt | f32Gt | f32Le | f32Ge => comparison .f32
  | f64Eq | f64Ne | f64Lt | f64Gt | f64Le | f64Ge => comparison .f64
  | i32Clz | i32Ctz | i32Popcnt | i32Extend8S | i32Extend16S => unary .i32
  | i64Clz | i64Ctz | i64Popcnt | i64Extend8S | i64Extend16S | i64Extend32S => unary .i64
  | f32Abs | f32Neg | f32Ceil | f32Floor | f32Trunc | f32Nearest | f32Sqrt => unary .f32
  | f64Abs | f64Neg | f64Ceil | f64Floor | f64Trunc | f64Nearest | f64Sqrt => unary .f64
  | i32Add | i32Sub | i32Mul | i32DivS | i32DivU | i32RemS | i32RemU | i32And | i32Or | i32Xor
  | i32Shl | i32ShrS | i32ShrU | i32Rotl | i32Rotr => binary .i32
  | i64Add | i64Sub | i64Mul | i64DivS | i64DivU | i64RemS | i64RemU | i64And | i64Or | i64Xor
  | i64Shl | i64ShrS | i64ShrU | i64Rotl | i64Rotr => binary .i64
  | f32Add | f32Sub | f32Mul | f32Div | f32Min | f32Max | f32Copysign => binary .f32
  | f64Add | f64Sub | f64Mul | f64Div | f64Min | f64Max | f64Copysign => binary .f64
  | i32WrapI64 => conversion .i64 .i32
  | i32TruncF32S | i32TruncF32U | i32ReinterpretF32 => conversion .f32 .i32
  | i32TruncF64S | i32TruncF64U => conversion .f64 .i32
  | i64ExtendI32S | i64ExtendI32U => conversion .i32 .i64
  | i64TruncF32S | i64TruncF32U => conversion .f32 .i64
  | i64TruncF64S | i64TruncF64U | i64ReinterpretF64 => conversion .f64 .i64
  | f32ConvertI32S | f32ConvertI32U | f32ReinterpretI32 => conversion .i32 .f32
  | f32ConvertI64S | f32ConvertI64U => conversion .i64 .f32
  | f32DemoteF64 => conversion .f64 .f32
  | f64ConvertI32S | f64ConvertI32U => conversion .i32 .f64
  | f64ConvertI64S | f64ConvertI64U | f64ReinterpretI64 => conversion .i64 .f64
  | f64PromoteF32 => conversion .f32 .f64

end NumericOp

end WasmAssembly
