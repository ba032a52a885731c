import WasmAssembly.Vocabulary.Entity

/-!
# `WasmAssembly.Module.Error`: why a module is refused

A declaration that would break a rule of the module is refused and changes nothing. `ModuleError`
names the rule, `message` gives its wording, and `category` tells whose mistake it is.
-/

set_option autoImplicit false

namespace WasmAssembly

/-- Who has to put an error right. -/
inductive ErrorCategory where
  /-- A declaration broke a rule of the module. -/
  | declaration
  /-- A value was outside the domain of its encoding. -/
  | encoding
  /-- The whole module is not valid. -/
  | validation
  deriving DecidableEq, Inhabited

namespace ErrorCategory

/-- Every category. -/
def all : List ErrorCategory := [declaration, encoding, validation]

/-- The name of a category, used in JSON. -/
def name : ErrorCategory → String
  | declaration => "declaration"
  | encoding => "encoding"
  | validation => "validation"

end ErrorCategory

/-- Why a declaration or a module is refused. -/
inductive ModuleError where
  /-- A second function was to be the start function. -/
  | duplicateStart (existing : Nat)
  /-- The start function has parameters or results. -/
  | invalidStartSignature (found : FuncType)
  /-- A second memory was declared, imported or defined. -/
  | duplicateMemory
  /-- Two exports would have one name. -/
  | duplicateExport (name : String)
  /-- The import would renumber entities that are already defined. -/
  | importAfterDefinition (kind : ExternalKind) (scope name : String)
  /-- The index is not below the number of entities of its kind. -/
  | indexOutOfRange (kind : ExternalKind) (index count : Nat)
  /-- No signature has this type index. -/
  | unknownType (index : Nat)
  /-- The largest size is below the smallest, or a size is above what the format allows. -/
  | invalidLimits (limits : Limits)
  /-- The initializer is not of the declared type. -/
  | initializerMismatch (expected found : ValType)
  /-- The initializer reads a global that is not imported. -/
  | nonImportedGlobal (index : Nat)
  /-- The initializer reads a global that can change. -/
  | mutableGlobal (index : Nat)
  /-- A declaration goes beyond what the format can express. -/
  | limitExceeded (detail : String)
  /-- An integer could not be encoded or decoded. -/
  | encoding (error : Leb128.Error)
  /-- The whole module was found invalid. -/
  | validationFailed (detail : String)
  deriving DecidableEq

namespace ModuleError

/-- The wording of an error. -/
def message : ModuleError → String
  | duplicateStart existing => s!"start function already declared (function index {existing})"
  | invalidStartSignature found =>
    s!"start function must have type () -> (), found {found.text}"
  | duplicateMemory => "module already declares a memory"
  | duplicateExport name => s!"duplicate export name `{name}`"
  | importAfterDefinition kind scope name =>
    s!"{kind.noun} import `{scope}.{name}` declared after a local {kind.noun} definition"
  | indexOutOfRange kind index count =>
    s!"{kind.noun} index {index} out of range ({count} defined)"
  | unknownType index => s!"type index {index} is not registered"
  | invalidLimits limits =>
    s!"invalid limits: min {limits.min}, max {Limits.maxText limits.max}"
  | initializerMismatch expected found =>
    s!"initializer of type {found.name} does not match declared type {expected.name}"
  | nonImportedGlobal index =>
    s!"constant expression reads global {index}, which is not imported"
  | mutableGlobal index => s!"constant expression reads mutable global {index}"
  | limitExceeded detail => s!"limit exceeded: {detail}"
  | encoding error => error.message
  | validationFailed detail => s!"module validation failed: {detail}"

/-- The category of an error. A width that does not exist is a mistake of whoever asked for it,
not of the value to be encoded. -/
def category : ModuleError → ErrorCategory
  | encoding (.malformedWidth _) => .declaration
  | encoding _ => .encoding
  | validationFailed _ => .validation
  | _ => .declaration

end ModuleError

end WasmAssembly
