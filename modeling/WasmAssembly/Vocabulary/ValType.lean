import WasmAssembly.Bytes.Encode

/-!
# `WasmAssembly.Vocabulary.ValType`: value types and signatures

The types of parameters, results, locals and globals, the reference types among them, and the
signatures of functions. Each has a one-byte code; a signature is a marker, the parameter types
and the result types. `ofCode?_code` says that codes are told apart.
-/

set_option autoImplicit false

namespace WasmAssembly

/-- The type of a value. -/
inductive ValType where
  | i32
  | i64
  | f32
  | f64
  | v128
  | funcref
  | externref
  deriving DecidableEq, Inhabited

namespace ValType

/-- Every value type. -/
def all : List ValType := [i32, i64, f32, f64, v128, funcref, externref]

/-- The byte that stands for a value type. -/
def code : ValType → UInt8
  | i32 => 0x7f
  | i64 => 0x7e
  | f32 => 0x7d
  | f64 => 0x7c
  | v128 => 0x7b
  | funcref => 0x70
  | externref => 0x6f

/-- The value type that a byte stands for. -/
def ofCode? (code : UInt8) : Option ValType :=
  all.find? (·.code == code)

/-- The code of a value type tells the type. -/
theorem ofCode?_code (t : ValType) : ofCode? t.code = some t := by
  cases t <;> rfl

/-- Values of this type refer to a function or to something outside the module. -/
def isRef : ValType → Bool
  | funcref | externref => true
  | _ => false

/-- The name of a value type. -/
def name : ValType → String
  | i32 => "i32"
  | i64 => "i64"
  | f32 => "f32"
  | f64 => "f64"
  | v128 => "v128"
  | funcref => "funcref"
  | externref => "externref"

instance : Encode ValType where
  encode b t := b.byte t.code

end ValType

/-- The type of a reference, which is what tables hold. -/
inductive RefType where
  | funcref
  | externref
  deriving DecidableEq, Inhabited

namespace RefType

/-- Every reference type. -/
def all : List RefType := [funcref, externref]

/-- A reference type as a value type. -/
def toValType : RefType → ValType
  | funcref => .funcref
  | externref => .externref

/-- The name of a reference type. -/
def name (t : RefType) : String := t.toValType.name

instance : Encode RefType where
  encode b t := encode b t.toValType

end RefType

/-- The parameter and result types of a function. -/
structure FuncType where
  params : List ValType
  results : List ValType
  deriving DecidableEq, Inhabited

namespace FuncType

/-- The signature without parameters and results. -/
def empty : FuncType := ⟨[], []⟩

/-- The signature has neither parameters nor results. -/
def isEmpty (t : FuncType) : Bool := t.params.isEmpty && t.results.isEmpty

/-- The byte in front of every signature. -/
def marker : UInt8 := 0x60

/-- A signature as text, such as `(i32, f64) -> ()`. -/
def text (t : FuncType) : String :=
  let names (ts : List ValType) := ", ".intercalate (ts.map ValType.name)
  s!"({names t.params}) -> ({names t.results})"

instance : Encode FuncType where
  encode b t := ((b.byte marker).vector t.params).vector t.results

end FuncType

end WasmAssembly
