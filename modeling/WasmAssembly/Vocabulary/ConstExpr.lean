import WasmAssembly.Vocabulary.Entity

/-!
# `WasmAssembly.Vocabulary.ConstExpr`: constant expressions

The expressions that initialise globals and place data. Floats are held by bit pattern, so that
every NaN stays what it is.
-/

set_option autoImplicit false

namespace WasmAssembly

/-- The byte that ends constant expressions and function bodies. -/
def endMarker : UInt8 := 0x0b

/-- A constant expression. -/
inductive ConstExpr where
  | i32 (value : Int32)
  | i64 (value : Int64)
  | f32 (pattern : UInt32)
  | f64 (pattern : UInt64)
  /-- The value of an imported global. -/
  | globalGet (index : UInt32)
  | refNull (type : RefType)
  | refFunc (index : UInt32)
  deriving DecidableEq, Inhabited

namespace ConstExpr

/-- The type of the value, where the expression alone tells it: a global has the type it was
declared with. -/
def valueType : ConstExpr → Option ValType
  | i32 _ => some .i32
  | i64 _ => some .i64
  | f32 _ => some .f32
  | f64 _ => some .f64
  | globalGet _ => none
  | refNull type => some type.toValType
  | refFunc _ => some .funcref

/-- Writes the one instruction of an expression. -/
def encodeInstr (b : Buffer) : ConstExpr → Buffer
  | i32 value => (b.byte 0x41).i32 value
  | i64 value => (b.byte 0x42).i64 value
  | f32 pattern => (b.byte 0x43).f32 pattern
  | f64 pattern => (b.byte 0x44).f64 pattern
  | globalGet index => (b.byte 0x23).u32 index
  | refNull type => encode (b.byte 0xd0) type
  | refFunc index => (b.byte 0xd2).u32 index

instance : Encode ConstExpr where
  encode b e := (encodeInstr b e).byte endMarker

end ConstExpr

end WasmAssembly
