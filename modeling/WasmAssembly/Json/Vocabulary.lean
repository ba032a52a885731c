import WasmAssembly.Decimal.Shortest
import WasmAssembly.Json.Value
import WasmAssembly.Module.Error
import WasmAssembly.Vocabulary.ConstExpr
import WasmAssembly.Vocabulary.SectionId

/-!
# `WasmAssembly.Json.Vocabulary`: the vocabulary of modules in JSON

`JsonFormat` is the class of types with a JSON form. Enumerated types are written by name, the
others as objects with their members in order; a largest size that is missing is left out.
-/

set_option autoImplicit false

namespace WasmAssembly

open Json

/-- A type whose values are read from JSON and written to it. -/
class JsonFormat (α : Type) where
  reader : Reader α
  write : α → Bytes

namespace Json

/-- The JSON form of a value. -/
def write {α : Type} [JsonFormat α] (a : α) : Bytes := JsonFormat.write a

/-- The value that a text denotes. -/
def read {α : Type} [JsonFormat α] (s : Bytes) : Except Fault α := parse JsonFormat.reader s

/-- The form of a type whose values are known by name. -/
@[reducible]
def byName {α : Type} (all : List α) (name : α → String) : JsonFormat α where
  reader := oneOf (all.map fun a => (name a, .bare a))
  write a := string (name a)

/-- A number below `2 ^ 32`. -/
def toU32? : Number → Option UInt32
  | .nonneg n => if n < UInt32.size then some (UInt32.ofNat n) else none
  | _ => none

/-- The integer that a number is, if it lies between `-2 ^ (bits - 1)` and
`2 ^ (bits - 1) - 1`. -/
def toInt? (bits : Nat) : Number → Option Int
  | .nonneg n => if n < 1 <<< (bits - 1) then some n else none
  | .negative n => if n ≤ 1 <<< (bits - 1) then some (-n) else none
  | .float _ _ => none

end Json

instance : JsonFormat UInt32 where
  reader := number toU32?
  write n := nat n.toNat

instance : JsonFormat Int32 where
  reader := number fun n => (toInt? 32 n).map Int32.ofInt
  write z := Decimal.integer z.toInt

instance : JsonFormat Int64 where
  reader := number fun n => (toInt? 64 n).map Int64.ofInt
  write z := Decimal.integer z.toInt

instance : JsonFormat String where
  reader := text
  write := string

instance : JsonFormat Bool where
  reader := boolean
  write
    | true => [0x74, 0x72, 0x75, 0x65]
    | false => [0x66, 0x61, 0x6c, 0x73, 0x65]

instance {α : Type} [JsonFormat α] : JsonFormat (List α) where
  reader := arrayOf JsonFormat.reader
  write items := array (items.map write)

instance : JsonFormat ValType := byName ValType.all ValType.name

instance : JsonFormat RefType := byName RefType.all RefType.name

instance : JsonFormat ExternalKind := byName ExternalKind.all ExternalKind.name

instance : JsonFormat SectionId := byName SectionId.all SectionId.name

instance : JsonFormat ErrorCategory := byName ErrorCategory.all ErrorCategory.name

namespace Json

/-- A member that is read by the format of its type. -/
def member {σ α : Type} [JsonFormat α] (name : String) (get : σ → Option α) (set : σ → α → σ) :
    Member σ where
  name
  isSet state := (get state).isSome
  read state s := (JsonFormat.reader s).map fun (a, rest) => (set state a, rest)

/-- A member whose value may be missing, or be the word for no value. -/
def nullableMember {σ α : Type} [JsonFormat α] (name : String) (get : σ → Option (Option α))
    (set : σ → Option α → σ) : Member σ where
  name
  isSet state := (get state).isSome
  read state s := (nullable JsonFormat.reader s).map fun (a, rest) => (set state a, rest)

end Json

/-! ### Signatures, limits and entity types -/

/-- The shape of a signature. -/
def FuncType.shape : Shape (Option (List ValType) × Option (List ValType)) FuncType where
  members :=
    [member "params" (·.1) fun state params => (some params, state.2),
      member "results" (·.2) fun state results => (state.1, some results)]
  start := (none, none)
  finish state := do return ⟨← state.1, ← state.2⟩

instance : JsonFormat FuncType where
  reader := FuncType.shape.reader
  write t := object [("params", write t.params), ("results", write t.results)]

/-- The shape of limits. -/
def Limits.shape : Shape (Option UInt32 × Option (Option UInt32)) Limits where
  members :=
    [member "min" (·.1) fun state min => (some min, state.2),
      nullableMember "max" (·.2) fun state max => (state.1, some max)]
  start := (none, none)
  finish state := do return ⟨← state.1, state.2.getD none⟩

instance : JsonFormat Limits where
  reader := Limits.shape.reader
  write l := object (("min", write l.min) :: optionalMember "max" (l.max.map write))

/-- The shape of the type of a table. -/
def TableType.shape : Shape (Option RefType × Option Limits) TableType where
  members :=
    [member "element" (·.1) fun state element => (some element, state.2),
      member "limits" (·.2) fun state limits => (state.1, some limits)]
  start := (none, none)
  finish state := do return ⟨← state.1, ← state.2⟩

instance : JsonFormat TableType where
  reader := TableType.shape.reader
  write t := object [("element", write t.element), ("limits", write t.limits)]

/-- The shape of the type of a global. -/
def GlobalType.shape : Shape (Option ValType × Option Bool) GlobalType where
  members :=
    [member "val_type" (·.1) fun state valType => (some valType, state.2),
      member "mutable" (·.2) fun state isMutable => (state.1, some isMutable)]
  start := (none, none)
  finish state := do return ⟨← state.1, ← state.2⟩

instance : JsonFormat GlobalType where
  reader := GlobalType.shape.reader
  write t := object [("val_type", write t.valType), ("mutable", write t.isMutable)]

/-! ### Constant expressions -/

namespace Decimal.BinaryFormat

/-- The pattern of a float, from its sign and magnitude. -/
def pattern (f : BinaryFormat) (isNegative : Bool) (magnitude : Nat) : Nat :=
  if isNegative then f.signBit + magnitude else magnitude

/-- The pattern of the float nearest to a number. An integer is rounded once, a float that has been
read is rounded from its value. -/
def ofNumber (f : BinaryFormat) : Number → Nat
  | .nonneg n => f.nearest n 1
  | .negative n => f.pattern true (f.nearest n 1)
  | .float isNegative magnitude => f.pattern isNegative (binary64.convert f magnitude)

/-- The JSON form of the float with a pattern. There is none for infinities and NaNs, which are
written as no value. -/
def writePattern (f : BinaryFormat) (layout : Layout) (pattern : Nat) : Bytes :=
  let magnitude := pattern % f.signBit
  if f.infinity ≤ magnitude then [0x6e, 0x75, 0x6c, 0x6c]
  else if f.signBit ≤ pattern then 0x2d :: f.text layout magnitude
  else f.text layout magnitude

end Decimal.BinaryFormat

namespace ConstExpr

open Decimal

/-- A form of expression whose operand is read by the format of its type. -/
def variant {α : Type} [JsonFormat α] (make : α → ConstExpr) : Variant ConstExpr :=
  .carrying fun s => (JsonFormat.reader s).map fun (a, rest) => (make a, rest)

/-- A form of expression whose operand is a float. -/
def floatVariant (f : BinaryFormat) (make : Nat → ConstExpr) : Variant ConstExpr :=
  .carrying (number fun n => some (make (f.ofNumber n)))

/-- The forms of expressions, by name. -/
def variants : List (String × Variant ConstExpr) :=
  [("i32", variant ConstExpr.i32),
    ("i64", variant ConstExpr.i64),
    ("f32", floatVariant .binary32 fun n => .f32 (UInt32.ofNat n)),
    ("f64", floatVariant .binary64 fun n => .f64 (UInt64.ofNat n)),
    ("global_get", variant ConstExpr.globalGet),
    ("ref_null", variant ConstExpr.refNull),
    ("ref_func", variant ConstExpr.refFunc)]

/-- The name of the form of an expression, and its operand in JSON. -/
def parts : ConstExpr → String × Bytes
  | i32 value => ("i32", write value)
  | i64 value => ("i64", write value)
  | f32 pattern => ("f32", BinaryFormat.binary32.writePattern .binary32 pattern.toNat)
  | f64 pattern => ("f64", BinaryFormat.binary64.writePattern .binary64 pattern.toNat)
  | globalGet index => ("global_get", write index)
  | refNull type => ("ref_null", write type)
  | refFunc index => ("ref_func", write index)

end ConstExpr

instance : JsonFormat ConstExpr where
  reader := oneOf ConstExpr.variants
  write e := object [e.parts]

end WasmAssembly
