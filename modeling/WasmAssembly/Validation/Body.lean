import WasmAssembly.Instr.Decode
import WasmAssembly.Validation.Stack

/-!
# `WasmAssembly.Validation.Body`: the typing of function bodies

Every instruction takes operands of certain types and leaves others. `Stack.step` is the effect of
one instruction on the types, and `checkBody` follows a whole body with it.
-/

set_option autoImplicit false

namespace WasmAssembly.Validation

/-- What the bodies of a module refer to. -/
structure Environment where
  types : TypeTable
  /-- The type indices of all functions, imported ones first. -/
  functions : Array Nat
  /-- The types of all globals, imported ones first. -/
  globals : Array GlobalType
  hasMemory : Bool

namespace Environment

/-- The type index of an entity, if it is a function. -/
def typeIndex? : ExternType Nat → Option Nat
  | .func typeIndex => some typeIndex
  | _ => none

/-- What the bodies of a module refer to. -/
def ofModule (m : Module) : Environment where
  types := m.types
  functions := m.imports.filterMap (typeIndex? ·.type) ++ m.functions.map (·.typeIndex)
  globals := m.imports.filterMap (·.type.global?) ++ m.globals.map (·.type)
  hasMemory := m.hasMemory

/-- The signature with a type index. -/
def signature (env : Environment) (index : Nat) : Except Fault FuncType :=
  match env.types.get? index with
  | some type => .ok type
  | none => .error (.unknownType index)

/-- The signature of a function. -/
def function (env : Environment) (index : Nat) : Except Fault FuncType :=
  match env.functions[index]? with
  | some typeIndex => env.signature typeIndex
  | none => .error (.unknownIndex .func index)

/-- The type of a global. -/
def global (env : Environment) (index : Nat) : Except Fault GlobalType :=
  match env.globals[index]? with
  | some type => .ok type
  | none => .error (.unknownIndex .global index)

/-- The signature of a block. -/
def block (env : Environment) : BlockType → Except Fault FuncType
  | .empty => .ok .empty
  | .value type => .ok ⟨[], [type]⟩
  | .func index => env.signature index.toNat

/-- There is a memory. -/
def checkMemory (env : Environment) : Except Fault Unit :=
  if env.hasMemory then .ok () else .error .noMemory

/-- There is a memory, and an access to it claims no more alignment than it has bytes. -/
def checkAccess (env : Environment) (arg : MemArg) (sizeLog2 : Nat) : Except Fault Unit := do
  env.checkMemory
  if arg.align.toNat ≤ sizeLog2 then .ok () else .error (.alignmentTooLarge arg.align.toNat)

end Environment

/-- The type of a local. -/
def localType (locals : Array ValType) (index : UInt32) : Except Fault ValType :=
  match locals[index.toNat]? with
  | some type => .ok type
  | none => .error (.unknownLocal index.toNat)

/-- The type of what is selected from two operands: both have it, as far as it is known, and it is
no reference type. -/
def selectType : Operand → Operand → Except Fault Operand
  | some a, some b => if a = b ∧ !a.isRef then .ok (some a) else .error .unselectable
  | some a, none | none, some a => if a.isRef then .error .unselectable else .ok (some a)
  | none, none => .ok none

namespace Stack

/-- Takes the parameters of a signature and leaves its results. -/
def apply (s : Stack) (type : FuncType) : Except Fault Stack := do
  return (← s.popAll type.params).pushAll type.results

/-- Opens a block, for which its parameters are taken. -/
def openBlock (s : Stack) (env : Environment) (kind : BlockKind) (type : BlockType) :
    Except Fault Stack := do
  let type ← env.block type
  return (← s.popAll type.params).enter kind type

/-- Closes the innermost block. An `if` that has no `else` must do without one: its parameters are
its results. -/
def closeBlock (s : Stack) : Except Fault Stack := do
  let (b, s) ← s.leave
  if b.kind = .ifBlock then
    let (b, s) ← (s.enter .elseBlock b.type).leave
    return s.pushAll b.type.results
  else
    return s.pushAll b.type.results

/-- The effect of an instruction. -/
def step (env : Environment) (locals : Array ValType) (s : Stack) (instr : Instr) :
    Except Fault Stack := do
  let _ ← s.innermost
  match instr with
  | .unreachable => s.abandon
  | .nop => return s
  | .block type => s.openBlock env .block type
  | .loop type => s.openBlock env .loop type
  | .ifBlock type => (← s.popType .i32).openBlock env .ifBlock type
  | .elseBlock =>
    let (b, s) ← s.leave
    if b.kind = .ifBlock then return s.enter .elseBlock b.type else .error .elseWithoutIf
  | .endBlock => s.closeBlock
  | .br depth =>
    let types ← s.labelTypes depth.toNat
    (← s.popAll types).abandon
  | .brIf depth =>
    let s ← s.popType .i32
    let types ← s.labelTypes depth.toNat
    return (← s.popAll types).pushAll types
  | .ret =>
    let types ← s.labelTypes (s.blocks.length - 1)
    (← s.popAll types).abandon
  | .call function => s.apply (← env.function function.toNat)
  | .drop => return (← s.pop).2
  | .select =>
    let s ← s.popType .i32
    let (a, s) ← s.pop
    let (b, s) ← s.pop
    return s.push (← selectType a b)
  | .localGet index => return s.push (some (← localType locals index))
  | .localSet index => s.popType (← localType locals index)
  | .localTee index =>
    let type ← localType locals index
    s.apply ⟨[type], [type]⟩
  | .globalGet index => return s.push (some (← env.global index.toNat).valType)
  | .globalSet index =>
    let type ← env.global index.toNat
    if type.isMutable then s.popType type.valType else .error (.immutableGlobal index.toNat)
  | .load op arg =>
    env.checkAccess arg op.sizeLog2
    s.apply ⟨[.i32], [op.valType]⟩
  | .store op arg =>
    env.checkAccess arg op.sizeLog2
    s.apply ⟨[.i32, op.valType], []⟩
  | .memorySize =>
    env.checkMemory
    return s.push (some .i32)
  | .memoryGrow =>
    env.checkMemory
    s.apply ⟨[.i32], [.i32]⟩
  | .i32Const _ => return s.push (some .i32)
  | .i64Const _ => return s.push (some .i64)
  | .f32Const _ => return s.push (some .f32)
  | .f64Const _ => return s.push (some .f64)
  | .numeric op => s.apply op.signature

/-- The effect of instructions in order. -/
def run (env : Environment) (locals : Array ValType) (s : Stack) :
    List Instr → Except Fault Stack
  | [] => .ok s
  | instr :: instrs =>
    match s.step env locals instr with
    | .error fault => .error fault
    | .ok s => s.run env locals instrs

end Stack

/-- A body takes the parameters from its locals, leaves the results, and ends with its outermost
block. It is read in the form that lets instructions name their memory. -/
def checkBody (env : Environment) (results : List ValType) (locals : Array ValType)
    (body : Bytes) : Except Fault Unit := do
  match Instr.decodeAll? .indexed body with
  | none => .error .malformedBody
  | some instrs =>
    let s ← (Stack.empty.enter .function ⟨[], results⟩).run env locals instrs
    if s.blocks.isEmpty then .ok () else .error .missingEnd

end WasmAssembly.Validation
