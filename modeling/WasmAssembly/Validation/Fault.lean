import WasmAssembly.Module.Basic

/-!
# `WasmAssembly.Validation.Fault`: why a module is not valid

What declarations alone cannot rule out: a body that is no sequence of well-typed instructions, and
sizes that go beyond what implementations accept.
-/

set_option autoImplicit false

namespace WasmAssembly.Validation

/-- Why a module is not valid. -/
inductive Fault where
  | tooManyParams (count : Nat)
  | tooManyResults (count : Nat)
  | tooManyLocals (count : Nat)
  | tooManyTables (count : Nat)
  | nameTooLong (size : Nat)
  /-- The bytes of a body are no sequence of instructions. -/
  | malformedBody
  /-- A body goes on after its last block is closed. -/
  | instructionAfterEnd
  /-- A body stops before its last block is closed. -/
  | missingEnd
  /-- An operand is taken where there is none. -/
  | missingOperand
  | operandMismatch (expected found : ValType)
  /-- A block ends with operands that are not its results. -/
  | operandsLeft
  /-- An `else` that does not follow the first branch of an `if`. -/
  | elseWithoutIf
  /-- Two operands between which no choice is possible without naming their type. -/
  | unselectable
  | unknownIndex (kind : ExternalKind) (index : Nat)
  | unknownLocal (index : Nat)
  | unknownType (index : Nat)
  | unknownLabel (depth : Nat)
  | immutableGlobal (index : Nat)
  | noMemory
  | alignmentTooLarge (align : Nat)
  deriving DecidableEq

/-- The wording of a fault. -/
def Fault.message : Fault → String
  | tooManyParams count => s!"a signature has {count} parameters"
  | tooManyResults count => s!"a signature has {count} results"
  | tooManyLocals count => s!"a function has {count} locals"
  | tooManyTables count => s!"there are {count} tables"
  | nameTooLong size => s!"a name has {size} bytes"
  | malformedBody => "a body is not a sequence of instructions"
  | instructionAfterEnd => "instruction after the end of a function"
  | missingEnd => "a function is not ended"
  | missingOperand => "an operand is missing"
  | operandMismatch expected found => s!"expected {expected.name}, found {found.name}"
  | operandsLeft => "operands are left at the end of a block"
  | elseWithoutIf => "else outside of an if"
  | unselectable => "select between operands of different or reference types"
  | unknownIndex kind index => s!"unknown {kind.noun} {index}"
  | unknownLocal index => s!"unknown local {index}"
  | unknownType index => s!"unknown type {index}"
  | unknownLabel depth => s!"unknown label {depth}"
  | immutableGlobal index => s!"global {index} cannot be set"
  | noMemory => "there is no memory"
  | alignmentTooLarge align => s!"alignment {align} is larger than the access"

end WasmAssembly.Validation
