import WasmAssembly.Module.Declare

/-!
# `WasmAssembly.Module.Session`: declarations as commands

A session holds a module under construction and its log, and commands change both in place. A
command that fails does not undo what it has done by then: a refused declaration leaves no trace
only because it makes all its checks before its first change. `perform` is the command of each
declaration, step by step; it does to a session what `Module.declare` says.
-/

set_option autoImplicit false

namespace WasmAssembly

/-- A module under construction, and what has been recorded of it. -/
structure Session where
  module : Module
  log : Array Record
  deriving DecidableEq

/-- A step of a session. If it fails, the session stays as it has become by then. -/
abbrev Command (α : Type) := EStateM ModuleError Session α

namespace Command

variable {α : Type}

/-- Looks something up in the module. -/
def look (f : Module → α) : Command α := do
  return f (← get).module

/-- Fails if the module breaks a rule. -/
def require (rule : Module → Except ModuleError α) : Command α := do
  match rule (← get).module with
  | .ok a => return a
  | .error e => throw e

/-- Changes the module. -/
def change (f : Module → Module) : Command Unit :=
  modify fun s => { s with module := f s.module }

/-- Adds to the log. -/
def note (record : Record) : Command Unit :=
  modify fun s => { s with log := s.log.push record }

/-! ### Appending -/

/-- Registers a signature; gives its type index. -/
def register (type : FuncType) : Command Nat := do
  let (index, types) := (← look (·.types)).register type
  change ({ · with types })
  return index

/-- Registers the signature of a function, and keeps any other entity as it is. -/
def registerEntity : ExternType FuncType → Command (ExternType Nat)
  | .func signature => return .func (← register signature)
  | .table type => return .table type
  | .memory limits => return .memory limits
  | .global type => return .global type

/-- Appends an import. -/
def pushImport (scope name : String) (type : ExternType FuncType) : Command Nat := do
  let entity ← registerEntity type
  let index ← look (·.imported.of type.kind)
  change fun m => { m with imported := m.imported.increment type.kind }
  note (.imported scope name type.kind index)
  change fun m => { m with imports := m.imports.push ⟨scope, name, index, entity⟩ }
  return index

/-- Appends imports in order. -/
def pushImports (scope : String) : List (String × ExternType FuncType) → Command (List Nat)
  | [] => return []
  | (name, type) :: rest => do
    let first ← pushImport scope name type
    let others ← pushImports scope rest
    return first :: others

/-- Appends an export. -/
def pushExport (name : String) (kind : ExternalKind) (index : Nat) : Command Unit := do
  note (.exported name kind index)
  change fun m => { m with exports := m.exports.push ⟨name, kind, index⟩ }

/-- Exports an entity, if a name is given for it. -/
def exportAs (kind : ExternalKind) (index : Nat) : Option String → Command Unit
  | none => return
  | some name => pushExport name kind index

/-- Appends a function, with the end marker after its body. -/
def pushFunction (typeIndex : Nat) (locals : List LocalRun) (body : Bytes)
    (options : FunctionOptions) : Command Nat := do
  let index ← look (·.count .func)
  change fun m =>
    { m with functions := m.functions.push ⟨typeIndex, locals, body ++ [endMarker]⟩ }
  note (.function index typeIndex)
  exportAs .func index options.exportName
  if options.start then
    change fun m => { m with start := some index }
  return index

/-! ### Declarations -/

/-- Imports one entity. -/
def importEntity (scope name : String) (type : ExternType FuncType) : Command Nat := do
  require (·.checkImport scope name type)
  require fun m => Module.checkOnlyMemory m.hasMemory type
  pushImport scope name type

/-- Imports several entities of one namespace, all or none. -/
def importBatch (scope : String) (entries : List (String × ExternType FuncType)) :
    Command (List Nat) := do
  require fun m => m.checkImports scope m.hasMemory entries
  pushImports scope entries

/-- Defines a function. -/
def function (type : FuncType) (locals : List LocalRun) (body : Bytes)
    (options : FunctionOptions) : Command Nat := do
  require (·.checkFunction type locals options)
  let typeIndex ← register type
  pushFunction typeIndex locals body options

/-- Defines a function whose signature is given by its type index. -/
def functionOfType (typeIndex : Nat) (locals : List LocalRun) (body : Bytes)
    (options : FunctionOptions) : Command Nat := do
  match ← look (·.types.get? typeIndex) with
  | none => throw (.unknownType typeIndex)
  | some type =>
    require (·.checkFunction type locals options)
    pushFunction typeIndex locals body options

/-- Defines a table. -/
def table (type : TableType) (exportName : Option String) : Command Nat := do
  require (·.checkTable type exportName)
  let index ← look (·.count .table)
  change fun m => { m with tables := m.tables.push type }
  note (.table index type)
  exportAs .table index exportName
  return index

/-- Defines the memory. -/
def memory (limits : Limits) (exportName : Option String) : Command Nat := do
  require (·.checkMemory limits exportName)
  let index ← look (·.count .memory)
  change fun m => { m with memories := m.memories.push limits }
  note (.memory index limits)
  exportAs .memory index exportName
  return index

/-- Defines a global. -/
def global (type : GlobalType) (init : ConstExpr) (exportName : Option String) :
    Command Nat := do
  require (·.checkGlobal type init exportName)
  let index ← look (·.count .global)
  change fun m => { m with globals := m.globals.push ⟨type, init⟩ }
  note (.global index type)
  exportAs .global index exportName
  return index

/-- Exports an entity under a name. -/
def exportEntity (name : String) (kind : ExternalKind) (index : Nat) : Command Unit := do
  require (·.checkExport name kind index)
  pushExport name kind index

/-- Adds bytes that are put into the memory at `offset`. -/
def data (offset : UInt32) (bytes : Bytes) : Command Nat := do
  require (·.checkIndex .memory 0)
  let index ← look (·.data.size)
  note (.data index bytes.length offset)
  change fun m => { m with data := m.data.push ⟨offset, bytes⟩ }
  return index

/-- Adds a custom section. -/
def custom (name : String) (bytes : Bytes) : Command Unit :=
  change fun m => { m with customs := m.customs.push ⟨name, bytes⟩ }

/-- The command of a declaration. -/
def perform : Decl → Command Reply
  | .importEntity scope name type => return .index (← importEntity scope name type)
  | .importBatch scope entries => return .indices (← importBatch scope entries)
  | .function type locals body options => return .index (← function type locals body options)
  | .functionOfType typeIndex locals body options =>
    return .index (← functionOfType typeIndex locals body options)
  | .table type exportName => return .index (← table type exportName)
  | .memory limits exportName => return .index (← memory limits exportName)
  | .global type init exportName => return .index (← global type init exportName)
  | .exportEntity name kind index => do
    exportEntity name kind index
    return .done
  | .data offset bytes => return .index (← data offset bytes)
  | .custom name bytes => do
    custom name bytes
    return .done

end Command

namespace Session

/-- The session in which nothing has been declared. -/
def start : Session := ⟨.empty, #[]⟩

/-- The session after a declaration, which may fail. -/
def after (s : Session) (d : Decl) : Session :=
  match (Command.perform d).run s with
  | .ok _ s | .error _ s => s

/-- The session after declarations made one after the other. -/
def run (s : Session) (ds : List Decl) : Session :=
  ds.foldl after s

end Session

end WasmAssembly
