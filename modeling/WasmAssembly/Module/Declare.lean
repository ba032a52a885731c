import WasmAssembly.Module.Record

/-!
# `WasmAssembly.Module.Declare`: declarations

Each declaration first checks its rules, in a fixed order, and only then appends to the module.
A refused declaration gives a `ModuleError` and no module; an accepted one gives the module that
results, the index of what was declared, and the records of the log.

`Decl` has one constructor for each declaration, and `Module.declare` performs it.
-/

set_option autoImplicit false

namespace WasmAssembly

/-- What an accepted declaration yields. -/
structure Accepted (α : Type) where
  module : Module
  value : α
  records : List Record
  deriving DecidableEq

/-- What a function may be besides: exported, and the start function. -/
structure FunctionOptions where
  exportName : Option String
  start : Bool
  deriving DecidableEq, Inhabited

namespace Module

/-! ### Rules -/

/-- Sizes are in order, and not above `cap` where there is one. -/
def checkLimits (limits : Limits) (cap : Option UInt32) : Except ModuleError Unit :=
  if limits.isOrdered ∧ cap.all limits.isWithin then .ok () else .error (.invalidLimits limits)

/-- The limits of an entity are admissible. -/
def checkEntityLimits {σ : Type} : ExternType σ → Except ModuleError Unit
  | .table type => checkLimits type.limits none
  | .memory limits => checkLimits limits (some maxMemoryPages)
  | .func _ | .global _ => .ok ()

/-- An import has admissible limits and comes before the definitions of its kind. There is at most
one memory, so an imported one cannot come late without being a second one. -/
def checkImport (m : Module) (scope name : String) (type : ExternType FuncType) :
    Except ModuleError Unit := do
  checkEntityLimits type
  if type.kind ≠ .memory ∧ m.definedCount type.kind ≠ 0 then
    .error (.importAfterDefinition type.kind scope name)
  else
    .ok ()

/-- A memory is not the second one. -/
def checkOnlyMemory {σ : Type} (hasMemory : Bool) (type : ExternType σ) :
    Except ModuleError Unit :=
  if type.kind = .memory ∧ hasMemory then .error .duplicateMemory else .ok ()

/-- Imports keep the rules one after the other. `hasMemory` says whether there is a memory, in the
module or among the imports already checked. -/
def checkImports (m : Module) (scope : String) :
    (hasMemory : Bool) → List (String × ExternType FuncType) → Except ModuleError Unit
  | _, [] => .ok ()
  | hasMemory, (name, type) :: rest => do
    m.checkImport scope name type
    checkOnlyMemory hasMemory type
    m.checkImports scope (hasMemory || type.kind == .memory) rest

/-- An export name is not taken. -/
def checkExportName (m : Module) (name : String) : Except ModuleError Unit :=
  if m.exports.any (·.name == name) then .error (.duplicateExport name) else .ok ()

/-- The name of an implicit export, if there is one, is not taken. -/
def checkExportName? (m : Module) : Option String → Except ModuleError Unit
  | none => .ok ()
  | some name => m.checkExportName name

/-- An index belongs to an entity. -/
def checkIndex (m : Module) (kind : ExternalKind) (index : Nat) : Except ModuleError Unit :=
  if index < m.count kind then .ok () else .error (.indexOutOfRange kind index (m.count kind))

/-- The number of locals, parameters included. -/
def localCount (type : FuncType) (locals : List LocalRun) : Nat :=
  type.params.length + LocalRun.total locals

/-- The most locals that a function may have, parameters included. -/
def maxLocals : Nat := UInt32.size - 1

/-- The locals of a function can be numbered. -/
def checkLocals (type : FuncType) (locals : List LocalRun) : Except ModuleError Unit :=
  let total := localCount type locals
  if total ≤ maxLocals then .ok ()
  else
    .error (.limitExceeded
      s!"function declares {total} locals including parameters, at most {maxLocals} allowed")

/-- A start function is the only one, and has neither parameters nor results. -/
def checkStart (m : Module) (type : FuncType) : Except ModuleError Unit :=
  match m.start with
  | some existing => .error (.duplicateStart existing)
  | none => if type.isEmpty then .ok () else .error (.invalidStartSignature type)

/-- A function keeps all the rules that do not depend on its body. -/
def checkFunction (m : Module) (type : FuncType) (locals : List LocalRun)
    (options : FunctionOptions) : Except ModuleError Unit := do
  checkLocals type locals
  if options.start then m.checkStart type
  m.checkExportName? options.exportName

/-- The type of an initializer for a global of type `declared`. A global is read only if it is
imported and cannot change. -/
def initType (m : Module) (declared : ValType) : ConstExpr → Except ModuleError ValType
  | .globalGet index =>
    match m.importedGlobal? index.toNat with
    | none => .error (.nonImportedGlobal index.toNat)
    | some global =>
      if global.isMutable then .error (.mutableGlobal index.toNat) else .ok global.valType
  | .refFunc index => do
    m.checkIndex .func index.toNat
    .ok .funcref
  | init => .ok (init.valueType.getD declared)

/-- An initializer has the declared type. -/
def checkInit (m : Module) (declared : ValType) (init : ConstExpr) : Except ModuleError Unit := do
  let found ← m.initType declared init
  if found = declared then .ok () else .error (.initializerMismatch declared found)

/-- A table has admissible limits and a free export name. -/
def checkTable (m : Module) (type : TableType) (exportName : Option String) :
    Except ModuleError Unit := do
  checkLimits type.limits none
  m.checkExportName? exportName

/-- A memory is the only one, and has admissible limits and a free export name. -/
def checkMemory (m : Module) (limits : Limits) (exportName : Option String) :
    Except ModuleError Unit := do
  if m.hasMemory then .error .duplicateMemory
  checkLimits limits (some maxMemoryPages)
  m.checkExportName? exportName

/-- A global has an admissible initializer and a free export name. -/
def checkGlobal (m : Module) (type : GlobalType) (init : ConstExpr) (exportName : Option String) :
    Except ModuleError Unit := do
  m.checkInit type.valType init
  m.checkExportName? exportName

/-- An export has a free name, and belongs to an entity. -/
def checkExport (m : Module) (name : String) (kind : ExternalKind) (index : Nat) :
    Except ModuleError Unit := do
  m.checkExportName name
  m.checkIndex kind index

/-! ### Appending -/

/-- Registers the signature of a function, and keeps any other entity as it is. -/
def registerType (types : TypeTable) : ExternType FuncType → ExternType Nat × TypeTable
  | .func signature =>
    let (index, types) := types.register signature
    (.func index, types)
  | .table type => (.table type, types)
  | .memory limits => (.memory limits, types)
  | .global type => (.global type, types)

/-- Appends an import. -/
def pushImport (m : Module) (scope name : String) (type : ExternType FuncType) : Accepted Nat :=
  let (resolved, types) := registerType m.types type
  let index := m.imported.of type.kind
  { module :=
      { m with
        types
        imports := m.imports.push ⟨scope, name, index, resolved⟩
        imported := m.imported.increment type.kind }
    value := index
    records := [.imported scope name type.kind index] }

/-- Appends imports in order. -/
def pushImports (m : Module) (scope : String) :
    List (String × ExternType FuncType) → Accepted (List Nat)
  | [] => ⟨m, [], []⟩
  | (name, type) :: rest =>
    let first := m.pushImport scope name type
    let others := first.module.pushImports scope rest
    ⟨others.module, first.value :: others.value, first.records ++ others.records⟩

/-- Appends an export. -/
def pushExport (m : Module) (name : String) (kind : ExternalKind) (index : Nat) :
    Accepted Unit :=
  { module := { m with exports := m.exports.push ⟨name, kind, index⟩ }
    value := ()
    records := [.exported name kind index] }

end Module

/-- Exports the entity just declared, if a name is given for it. -/
def Accepted.exportedAs (a : Accepted Nat) (kind : ExternalKind) : Option String → Accepted Nat
  | none => a
  | some name =>
    let exported := a.module.pushExport name kind a.value
    ⟨exported.module, a.value, a.records ++ exported.records⟩

namespace Module

/-- Appends a function, with the end marker after its body. -/
def pushFunction (m : Module) (typeIndex : Nat) (locals : List LocalRun) (body : Bytes)
    (options : FunctionOptions) : Accepted Nat :=
  let index := m.count .func
  let function : Function := ⟨typeIndex, locals, body ++ [endMarker]⟩
  let declared : Accepted Nat :=
    { module := { m with functions := m.functions.push function }
      value := index
      records := [.function index typeIndex] }
  let declared := declared.exportedAs .func options.exportName
  if options.start then
    { declared with module := { declared.module with start := some index } }
  else
    declared

/-- Appends a table. -/
def pushTable (m : Module) (type : TableType) (exportName : Option String) : Accepted Nat :=
  let index := m.count .table
  let declared : Accepted Nat :=
    { module := { m with tables := m.tables.push type }
      value := index
      records := [.table index type] }
  declared.exportedAs .table exportName

/-- Appends a memory. -/
def pushMemory (m : Module) (limits : Limits) (exportName : Option String) : Accepted Nat :=
  let index := m.count .memory
  let declared : Accepted Nat :=
    { module := { m with memories := m.memories.push limits }
      value := index
      records := [.memory index limits] }
  declared.exportedAs .memory exportName

/-- Appends a global. -/
def pushGlobal (m : Module) (type : GlobalType) (init : ConstExpr) (exportName : Option String) :
    Accepted Nat :=
  let index := m.count .global
  let declared : Accepted Nat :=
    { module := { m with globals := m.globals.push ⟨type, init⟩ }
      value := index
      records := [.global index type] }
  declared.exportedAs .global exportName

/-- Appends a data segment. -/
def pushData (m : Module) (offset : UInt32) (bytes : Bytes) : Accepted Nat :=
  let index := m.data.size
  { module := { m with data := m.data.push ⟨offset, bytes⟩ }
    value := index
    records := [.data index bytes.length offset] }

/-! ### Declarations -/

/-- Imports one entity; gives its index. -/
def addImport (m : Module) (scope name : String) (type : ExternType FuncType) :
    Except ModuleError (Accepted Nat) := do
  m.checkImport scope name type
  checkOnlyMemory m.hasMemory type
  return m.pushImport scope name type

/-- Imports a function; gives its index. -/
def addFunctionImport (m : Module) (scope name : String) (type : FuncType) :
    Except ModuleError (Accepted Nat) :=
  m.addImport scope name (.func type)

/-- Imports several entities of one namespace, all or none; gives their indices. -/
def addImports (m : Module) (scope : String) (entries : List (String × ExternType FuncType)) :
    Except ModuleError (Accepted (List Nat)) := do
  m.checkImports scope m.hasMemory entries
  return m.pushImports scope entries

/-- Defines a function; gives its index. The body is given without its end marker. -/
def addFunction (m : Module) (type : FuncType) (locals : List LocalRun) (body : Bytes)
    (options : FunctionOptions) : Except ModuleError (Accepted Nat) := do
  m.checkFunction type locals options
  let (typeIndex, types) := m.types.register type
  return { m with types }.pushFunction typeIndex locals body options

/-- Defines a function whose signature is given by its type index; gives the function's index. -/
def addFunctionOfType (m : Module) (typeIndex : Nat) (locals : List LocalRun) (body : Bytes)
    (options : FunctionOptions) : Except ModuleError (Accepted Nat) := do
  match m.types.get? typeIndex with
  | none => .error (.unknownType typeIndex)
  | some type =>
    m.checkFunction type locals options
    return m.pushFunction typeIndex locals body options

/-- Defines a table; gives its index. -/
def addTable (m : Module) (type : TableType) (exportName : Option String) :
    Except ModuleError (Accepted Nat) := do
  m.checkTable type exportName
  return m.pushTable type exportName

/-- Defines the memory; gives its index. -/
def addMemory (m : Module) (limits : Limits) (exportName : Option String) :
    Except ModuleError (Accepted Nat) := do
  m.checkMemory limits exportName
  return m.pushMemory limits exportName

/-- Defines a global; gives its index. -/
def addGlobal (m : Module) (type : GlobalType) (init : ConstExpr) (exportName : Option String) :
    Except ModuleError (Accepted Nat) := do
  m.checkGlobal type init exportName
  return m.pushGlobal type init exportName

/-- Exports an entity under a name. -/
def addExport (m : Module) (name : String) (kind : ExternalKind) (index : Nat) :
    Except ModuleError (Accepted Unit) := do
  m.checkExport name kind index
  return m.pushExport name kind index

/-- Adds bytes that are put into the memory at `offset`; gives the number of the segment. -/
def addData (m : Module) (offset : UInt32) (bytes : Bytes) :
    Except ModuleError (Accepted Nat) := do
  m.checkIndex .memory 0
  return m.pushData offset bytes

/-- Adds a custom section, which is always possible and leaves no record. -/
def addCustom (m : Module) (name : String) (bytes : Bytes) : Accepted Unit :=
  { module := { m with customs := m.customs.push ⟨name, bytes⟩ }
    value := ()
    records := [] }

end Module

/-- A declaration. -/
inductive Decl where
  | importEntity (scope name : String) (type : ExternType FuncType)
  | importBatch (scope : String) (entries : List (String × ExternType FuncType))
  | function (type : FuncType) (locals : List LocalRun) (body : Bytes) (options : FunctionOptions)
  | functionOfType (typeIndex : Nat) (locals : List LocalRun) (body : Bytes)
      (options : FunctionOptions)
  | table (type : TableType) (exportName : Option String)
  | memory (limits : Limits) (exportName : Option String)
  | global (type : GlobalType) (init : ConstExpr) (exportName : Option String)
  | exportEntity (name : String) (kind : ExternalKind) (index : Nat)
  | data (offset : UInt32) (bytes : Bytes)
  | custom (name : String) (bytes : Bytes)
  deriving DecidableEq

/-- What an accepted declaration answers: an index, several, or nothing. -/
inductive Reply where
  | index (i : Nat)
  | indices (is : List Nat)
  | done
  deriving DecidableEq

/-- Replaces the value of an accepted declaration. -/
def Accepted.map {α β : Type} (f : α → β) (a : Accepted α) : Accepted β :=
  ⟨a.module, f a.value, a.records⟩

/-- Performs a declaration. -/
def Module.declare (m : Module) : Decl → Except ModuleError (Accepted Reply)
  | .importEntity scope name type => (m.addImport scope name type).map (·.map .index)
  | .importBatch scope entries => (m.addImports scope entries).map (·.map .indices)
  | .function type locals body options =>
    (m.addFunction type locals body options).map (·.map .index)
  | .functionOfType typeIndex locals body options =>
    (m.addFunctionOfType typeIndex locals body options).map (·.map .index)
  | .table type exportName => (m.addTable type exportName).map (·.map .index)
  | .memory limits exportName => (m.addMemory limits exportName).map (·.map .index)
  | .global type init exportName => (m.addGlobal type init exportName).map (·.map .index)
  | .exportEntity name kind index => (m.addExport name kind index).map (·.map fun _ => .done)
  | .data offset bytes => (m.addData offset bytes).map (·.map .index)
  | .custom name bytes => .ok ((m.addCustom name bytes).map fun _ => .done)

end WasmAssembly
