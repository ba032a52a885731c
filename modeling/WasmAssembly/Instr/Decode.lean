import WasmAssembly.Bytes.Take
import WasmAssembly.Instr.Basic

/-!
# `WasmAssembly.Instr.Decode`: reading instructions

Reads one instruction from the front of some bytes: the opcode, then the immediates that this
opcode has. Integers may be padded up to the width of their immediate.

Where a module may have several memories, the immediates of the instructions that use one are read
in another way, which `MemoryForm` tells apart. What is written for an alignment below 64 reads the
same in both.
-/

set_option autoImplicit false

namespace WasmAssembly

/-- The block type that an integer of 33 bits stands for. -/
def BlockType.ofInt? (z : Int) : Option BlockType :=
  if 0 ≤ z then some (.func (UInt32.ofNat z.toNat))
  else if z < -64 then none
  else
    let code := UInt8.ofNat (z + 128).toNat
    if code = emptyCode then some .empty else (ValType.ofCode? code).map .value

/-- How the immediates of an instruction that uses a memory are read. -/
inductive MemoryForm where
  /-- There can be one memory, which is not named. -/
  | single
  /-- An instruction may name its memory by an index; the only one there is has index 0. -/
  | indexed
  deriving DecidableEq, Inhabited

namespace MemoryForm

/-- The bit of an alignment that says that the index of a memory follows. -/
def indexFollows : UInt32 := 0x40

/-- Reads the index of the only memory. -/
def takeIndex? (bytes : Bytes) : Option Bytes := do
  let (index, rest) ← Bytes.takeU32? bytes
  if index = 0 then some rest else none

/-- Reads the alignment and the offset of a memory access. Offsets are as wide as addresses may be,
which is 64 bits where memories are named, though only 32 for the memory there is. -/
def takeMemArg? : MemoryForm → Bytes → Option (MemArg × Bytes)
  | single, bytes => do
    let (align, rest) ← Bytes.takeU32? bytes
    let (offset, rest) ← Bytes.takeU32? rest
    return (⟨align, offset⟩, rest)
  | indexed, bytes => do
    let (flags, rest) ← Bytes.takeU32? bytes
    let (align, rest) ←
      if flags &&& indexFollows = 0 then some (flags, rest)
      else (takeIndex? rest).map fun rest => (flags ^^^ indexFollows, rest)
    let (offset, rest) ← Bytes.takeUnsigned? 64 rest
    if offset < UInt32.size then return (⟨align, UInt32.ofNat offset⟩, rest) else none

/-- Reads what an instruction about a whole memory has instead of an address: a zero byte, or the
index of the memory. -/
def takeMemory? : MemoryForm → Bytes → Option Bytes
  | single, 0x00 :: rest => some rest
  | single, _ => none
  | indexed, bytes => takeIndex? bytes

end MemoryForm

namespace Instr

/-- Reads a block type. -/
def takeBlockType? (bytes : Bytes) : Option (BlockType × Bytes) := do
  let (z, rest) ← Bytes.takeSigned? 33 bytes
  let type ← BlockType.ofInt? z
  return (type, rest)

/-- Reads the immediates of an opcode whose instruction is grouped with others, or has none. -/
def decodeGrouped? (form : MemoryForm) (opcode : UInt8) (rest : Bytes) : Option (Instr × Bytes) :=
  match LoadOp.all.find? (·.opcode == opcode) with
  | some op => (form.takeMemArg? rest).map fun (arg, rest) => (.load op arg, rest)
  | none =>
    match StoreOp.all.find? (·.opcode == opcode) with
    | some op => (form.takeMemArg? rest).map fun (arg, rest) => (.store op arg, rest)
    | none => (NumericOp.ofOpcode? opcode).map fun op => (.numeric op, rest)

/-- The instruction at the front of some bytes, and the bytes after it. -/
def decode? (form : MemoryForm) : Bytes → Option (Instr × Bytes)
  | [] => none
  | opcode :: rest =>
    let block (make : BlockType → Instr) :=
      (takeBlockType? rest).map fun (type, rest) => (make type, rest)
    let indexed (make : UInt32 → Instr) :=
      (Bytes.takeU32? rest).map fun (index, rest) => (make index, rest)
    match opcode with
    | 0x00 => some (unreachable, rest)
    | 0x01 => some (nop, rest)
    | 0x02 => block .block
    | 0x03 => block .loop
    | 0x04 => block .ifBlock
    | 0x05 => some (elseBlock, rest)
    | 0x0b => some (endBlock, rest)
    | 0x0c => indexed .br
    | 0x0d => indexed .brIf
    | 0x0f => some (ret, rest)
    | 0x10 => indexed .call
    | 0x1a => some (drop, rest)
    | 0x1b => some (select, rest)
    | 0x20 => indexed .localGet
    | 0x21 => indexed .localSet
    | 0x22 => indexed .localTee
    | 0x23 => indexed .globalGet
    | 0x24 => indexed .globalSet
    | 0x3f => (form.takeMemory? rest).map fun rest => (memorySize, rest)
    | 0x40 => (form.takeMemory? rest).map fun rest => (memoryGrow, rest)
    | 0x41 => (Bytes.takeSigned? 32 rest).map fun (z, rest) => (.i32Const (Int32.ofInt z), rest)
    | 0x42 => (Bytes.takeSigned? 64 rest).map fun (z, rest) => (.i64Const (Int64.ofInt z), rest)
    | 0x43 =>
      (Bytes.takeLittleEndian? 4 rest).map fun (n, rest) => (.f32Const (UInt32.ofNat n), rest)
    | 0x44 =>
      (Bytes.takeLittleEndian? 8 rest).map fun (n, rest) => (.f64Const (UInt64.ofNat n), rest)
    | _ => decodeGrouped? form opcode rest

/-- Reads instructions until no byte is left, and puts them behind those in `done`, which are in
reverse. Each takes at least one byte, so `budget` bounds their number. -/
def decodeAll?.go (form : MemoryForm) :
    (budget : Nat) → (done : List Instr) → Bytes → Option (List Instr)
  | _, done, [] => some done.reverse
  | 0, _, _ :: _ => none
  | budget + 1, done, b :: bytes =>
    match decode? form (b :: bytes) with
    | some (instr, rest) => go form budget (instr :: done) rest
    | none => none

/-- The instructions that some bytes consist of. -/
def decodeAll? (form : MemoryForm) (bytes : Bytes) : Option (List Instr) :=
  decodeAll?.go form bytes.length [] bytes

end Instr

end WasmAssembly
