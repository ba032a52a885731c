import WasmAssembly.Validation.Fault

/-!
# `WasmAssembly.Validation.Stack`: operands and blocks

While a body is checked, `Stack` holds the types of the operands and the blocks that are open. Code
that cannot be reached has as many operands of unknown type as it takes.
-/

set_option autoImplicit false

namespace WasmAssembly.Validation

/-- The type of an operand, if it is known. -/
abbrev Operand := Option ValType

/-- The kinds of block. -/
inductive BlockKind where
  | function
  | block
  | loop
  | ifBlock
  | elseBlock
  deriving DecidableEq

/-- A block that is open. -/
structure Block where
  kind : BlockKind
  type : FuncType
  /-- The number of operands below the block. -/
  height : Nat
  /-- The rest of the block cannot be reached. -/
  isUnreachable : Bool
  deriving DecidableEq

/-- The operands that a branch to a block carries: a loop is entered again, any other block is
left. -/
def Block.labelTypes (b : Block) : List ValType :=
  if b.kind = .loop then b.type.params else b.type.results

/-- The operands, the last one first, and the blocks that are open, the innermost first. -/
structure Stack where
  operands : List Operand
  /-- The number of operands. -/
  height : Nat
  blocks : List Block
  deriving DecidableEq

namespace Stack

/-- Nothing has happened yet, and no block is open. -/
def empty : Stack := ⟨[], 0, []⟩

/-- The innermost block, unless the body has ended. -/
def innermost (s : Stack) : Except Fault Block :=
  match s.blocks with
  | b :: _ => .ok b
  | [] => .error .instructionAfterEnd

/-- Puts an operand on the stack. -/
def push (s : Stack) (operand : Operand) : Stack :=
  { s with operands := operand :: s.operands, height := s.height + 1 }

/-- Puts operands of known types on the stack, the last one on top. -/
def pushAll (s : Stack) (types : List ValType) : Stack :=
  types.foldl (fun s type => s.push (some type)) s

/-- Takes an operand of the innermost block. -/
def pop (s : Stack) : Except Fault (Operand × Stack) := do
  let b ← s.innermost
  if s.height ≤ b.height then
    if b.isUnreachable then .ok (none, s) else .error .missingOperand
  else
    match s.operands with
    | operand :: operands => .ok (operand, { s with operands, height := s.height - 1 })
    | [] => .error .missingOperand

/-- Takes an operand of a type. -/
def popType (s : Stack) (expected : ValType) : Except Fault Stack := do
  let (operand, s) ← s.pop
  match operand with
  | none => .ok s
  | some found => if found = expected then .ok s else .error (.operandMismatch expected found)

/-- Takes operands of types, of which the first is on top. -/
def popTypes (s : Stack) : List ValType → Except Fault Stack
  | [] => .ok s
  | type :: types => do (← s.popType type).popTypes types

/-- Takes operands of types, of which the last is on top. -/
def popAll (s : Stack) (types : List ValType) : Except Fault Stack :=
  s.popTypes types.reverse

/-- Opens a block whose parameters have been taken. -/
def enter (s : Stack) (kind : BlockKind) (type : FuncType) : Stack :=
  { s with blocks := ⟨kind, type, s.height, false⟩ :: s.blocks }.pushAll type.params

/-- Closes the innermost block, which must have exactly its results on the stack. -/
def leave (s : Stack) : Except Fault (Block × Stack) := do
  let b ← s.innermost
  let s ← s.popAll b.type.results
  if s.height = b.height then .ok (b, { s with blocks := s.blocks.tail })
  else .error .operandsLeft

/-- Nothing in the rest of the innermost block can be reached. -/
def abandon (s : Stack) : Except Fault Stack := do
  let b ← s.innermost
  .ok
    { operands := s.operands.drop (s.height - b.height)
      height := b.height
      blocks := { b with isUnreachable := true } :: s.blocks.tail }

/-- The operands that a branch carries to the block `depth` blocks out. -/
def labelTypes (s : Stack) (depth : Nat) : Except Fault (List ValType) :=
  match s.blocks[depth]? with
  | some b => .ok b.labelTypes
  | none => .error (.unknownLabel depth)

end Stack

end WasmAssembly.Validation
