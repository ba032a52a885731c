import WasmAssembly.Proofs.Reading.Reader
import WasmAssembly.Proofs.Vocabulary.Form

/-!
# `WasmAssembly.Proofs.Reading.Vocabulary`: reading the types of the format

One reader for each type of the vocabulary, written from the layout of the format: which byte tells
the cases apart, what follows in which case. For each of them a lemma says that it finds a value in
the bytes of the value, `toBytes`.
-/

set_option autoImplicit false

namespace WasmAssembly

namespace ByteReader

/-- A value type: its code. -/
def valType : ByteReader ValType := do
  let code ← byte
  ofOption (ValType.ofCode? code)

/-- The reference type that a value type is, if it is one. -/
def asRefType? (t : ValType) : Option RefType :=
  RefType.all.find? (·.toValType == t)

/-- A reference type: the code of a value type. -/
def refType : ByteReader RefType := do
  let type ← valType
  ofOption (asRefType? type)

/-- A signature: its marker, the parameters, the results. -/
def funcType : ByteReader FuncType := do
  expect FuncType.marker
  let params ← vector valType
  let results ← vector valType
  return ⟨params, results⟩

/-- A kind of entity: its code. -/
def externalKind : ByteReader ExternalKind := do
  let code ← byte
  ofOption (ExternalKind.ofCode? code)

/-- A smallest size and, if the flag in front is set, a largest. -/
def limits : ByteReader Limits := do
  let flag ← byte
  match flag with
  | 0 => do
    let min ← u32
    return ⟨min, none⟩
  | 1 => do
    let min ← u32
    let max ← u32
    return ⟨min, some max⟩
  | _ => ofOption none

/-- What a table holds, then its size. -/
def tableType : ByteReader TableType := do
  let element ← refType
  let size ← limits
  return ⟨element, size⟩

/-- Whether a global can be set: one byte, 0 or 1. -/
def mutability : ByteReader Bool := do
  let flag ← byte
  ofOption (if flag = 0 then some false else if flag = 1 then some true else none)

/-- What a global holds, then whether it can be set. -/
def globalType : ByteReader GlobalType := do
  let type ← valType
  let isMutable ← mutability
  return ⟨type, isMutable⟩

/-- The immediate of a constant instruction, by its opcode. -/
def constInstr (opcode : UInt8) : ByteReader ConstExpr :=
  match opcode with
  | 0x41 => do
    let value ← signed 32
    return .i32 (Int32.ofInt value)
  | 0x42 => do
    let value ← signed 64
    return .i64 (Int64.ofInt value)
  | 0x43 => do
    let bits ← pattern 4
    return .f32 (UInt32.ofNat bits)
  | 0x44 => do
    let bits ← pattern 8
    return .f64 (UInt64.ofNat bits)
  | 0x23 => do
    let global ← u32
    return .globalGet global
  | 0xd0 => do
    let type ← refType
    return .refNull type
  | 0xd2 => do
    let function ← u32
    return .refFunc function
  | _ => ofOption none

/-- A constant expression: one instruction and the end marker. -/
def constExpr : ByteReader ConstExpr := do
  let opcode ← byte
  let instr ← constInstr opcode
  expect endMarker
  return instr

end ByteReader

open ByteReader

/-! ### Value types and signatures -/

/-- A value type is read from its code. -/
theorem reads_valType (t : ValType) : Reads valType (toBytes t) t := by
  rw [ValType.toBytes_eq]
  exact (reads_byte t.code).lookup (ValType.ofCode?_code t)

/-- A reference type is told from the value type that it is. -/
theorem asRefType?_toValType (t : RefType) : asRefType? t.toValType = some t := by
  cases t <;> rfl

/-- A reference type is read from its code. -/
theorem reads_refType (t : RefType) : Reads refType (toBytes t) t :=
  (reads_valType t.toValType).lookup (asRefType?_toValType t)

/-- A value type has a byte. -/
theorem toBytes_valType_ne_nil (t : ValType) : toBytes t ≠ [] := by
  rw [ValType.toBytes_eq]
  exact List.cons_ne_nil _ _

/-- A list of value types is read from its bytes. -/
theorem readsShort_valTypes (ts : List ValType) :
    ReadsShort (vector valType) (vectorBytes ts) ts :=
  readsShort_vector (fun t _ => (reads_valType t).short) fun t _ => toBytes_valType_ne_nil t

/-- A signature is read from its bytes. -/
theorem readsShort_funcType (t : FuncType) : ReadsShort funcType (toBytes t) t := by
  rw [FuncType.toBytes_eq, ← List.singleton_append]
  exact (reads_expect FuncType.marker).short.bind
    ((readsShort_valTypes t.params).bind ((readsShort_valTypes t.results).map _))

/-! ### Entities -/

/-- A kind is read from its code. -/
theorem reads_externalKind (k : ExternalKind) : Reads externalKind (toBytes k) k := by
  rw [ExternalKind.toBytes_eq]
  exact (reads_byte k.code).lookup (ExternalKind.ofCode?_code k)

/-- Limits are read from their bytes. -/
theorem reads_limits (l : Limits) : Reads limits (toBytes l) l := by
  obtain ⟨min, max⟩ := l
  rw [Limits.toBytes_eq]
  cases max with
  | none => exact (reads_byte 0).bind ((reads_u32 min).map _)
  | some max => exact (reads_byte 1).bind ((reads_u32 min).bind ((reads_u32 max).map _))

/-- The type of a table is read from its bytes. -/
theorem reads_tableType (t : TableType) : Reads tableType (toBytes t) t := by
  rw [TableType.toBytes_eq]
  exact (reads_refType t.element).bind ((reads_limits t.limits).map _)

/-- Whether a global can be set is read from its byte. -/
theorem reads_mutability (t : GlobalType) : Reads mutability [t.mutability] t.isMutable := by
  refine (reads_byte t.mutability).lookup ?_
  rw [GlobalType.mutability]
  cases t.isMutable <;> rfl

/-- The type of a global is read from its bytes. -/
theorem reads_globalType (t : GlobalType) : Reads globalType (toBytes t) t := by
  rw [GlobalType.toBytes_eq]
  exact (reads_valType t.valType).bind ((reads_mutability t).map _)

/-! ### Constant expressions -/

/-- The immediate of each instruction reads back behind its opcode. -/
theorem reads_constInstr (e : ConstExpr) : Reads (constInstr e.opcode) e.immediate e := by
  cases e with
  | i32 value =>
      -- What is found is an integer. Made a word again, it is the word that was written.
      have hmap := (reads_i32 value).map fun z => ConstExpr.i32 (Int32.ofInt z)
      rwa [Int32.ofInt_toInt] at hmap
  | i64 value =>
      have hmap := (reads_i64 value).map fun z => ConstExpr.i64 (Int64.ofInt z)
      rwa [Int64.ofInt_toInt] at hmap
  | f32 bits =>
      have hmap := (reads_f32 bits).map fun n => ConstExpr.f32 (UInt32.ofNat n)
      rwa [UInt32.ofNat_toNat] at hmap
  | f64 bits =>
      have hmap := (reads_f64 bits).map fun n => ConstExpr.f64 (UInt64.ofNat n)
      rwa [UInt64.ofNat_toNat] at hmap
  | globalGet index => exact (reads_u32 index).map _
  | refNull type => exact (reads_refType type).map _
  | refFunc index => exact (reads_u32 index).map _

/-- A constant expression is read from its bytes. -/
theorem reads_constExpr (e : ConstExpr) : Reads constExpr (toBytes e) e := by
  rw [ConstExpr.toBytes_eq, ← List.singleton_append]
  exact (reads_byte e.opcode).bind
    ((reads_constInstr e).bind ((reads_expect endMarker).map _))

end WasmAssembly
