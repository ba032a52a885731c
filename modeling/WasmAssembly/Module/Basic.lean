import WasmAssembly.Module.Error
import WasmAssembly.TypeTable
import WasmAssembly.Vocabulary.ConstExpr
import WasmAssembly.Vocabulary.SectionId

/-!
# `WasmAssembly.Module.Basic`: modules under construction

A `Module` holds what has been declared so far, in order. Each kind of entity is numbered on its
own: the imported ones first, then those the module defines. Nothing is ever removed or
reordered, so an index, once given, stays what it is.
-/

set_option autoImplicit false

namespace WasmAssembly

/-- What an entity is, by kind. `σ` is how the signature of a function is given: as it is, or by
its type index. -/
inductive ExternType (σ : Type) where
  | func (signature : σ)
  | table (type : TableType)
  | memory (limits : Limits)
  | global (type : GlobalType)
  deriving DecidableEq

/-- The kind of an entity. -/
def ExternType.kind {σ : Type} : ExternType σ → ExternalKind
  | func _ => .func
  | table _ => .table
  | memory _ => .memory
  | global _ => .global

/-- The type of a global, if the entity is one. -/
def ExternType.global? {σ : Type} : ExternType σ → Option GlobalType
  | global type => some type
  | _ => none

/-- An import: where it comes from, its index among the entities of its kind, and what it is. -/
structure Import where
  scope : String
  name : String
  index : Nat
  type : ExternType Nat
  deriving DecidableEq

/-- The kind of an import. -/
def Import.kind (i : Import) : ExternalKind := i.type.kind

/-- An export: the name under which an entity is offered. -/
structure Export where
  name : String
  kind : ExternalKind
  index : Nat
  deriving DecidableEq

/-- A run of locals of one type. -/
structure LocalRun where
  count : UInt32
  type : ValType
  deriving DecidableEq

/-- The number of locals in some runs. -/
def LocalRun.total : List LocalRun → Nat
  | [] => 0
  | run :: runs => run.count.toNat + total runs

/-- A function that the module defines. The body includes the end marker. -/
structure Function where
  typeIndex : Nat
  locals : List LocalRun
  body : Bytes
  deriving DecidableEq

/-- A global that the module defines. -/
structure Global where
  type : GlobalType
  init : ConstExpr
  deriving DecidableEq

/-- Bytes that are put into the memory at the start. -/
structure DataSegment where
  offset : UInt32
  bytes : Bytes
  deriving DecidableEq

/-- A section whose contents mean nothing to the format. -/
structure CustomSection where
  name : String
  bytes : Bytes
  deriving DecidableEq

/-- The number of imports of each kind. -/
structure ImportCounts where
  func : Nat
  table : Nat
  memory : Nat
  global : Nat
  deriving DecidableEq

namespace ImportCounts

/-- Nothing is imported. -/
def zero : ImportCounts := ⟨0, 0, 0, 0⟩

/-- The number of imports of a kind. -/
def of (c : ImportCounts) : ExternalKind → Nat
  | .func => c.func
  | .table => c.table
  | .memory => c.memory
  | .global => c.global

/-- One more import of a kind. -/
def increment (c : ImportCounts) : ExternalKind → ImportCounts
  | .func => { c with func := c.func + 1 }
  | .table => { c with table := c.table + 1 }
  | .memory => { c with memory := c.memory + 1 }
  | .global => { c with global := c.global + 1 }

/-- Nothing is imported of any kind at the start. -/
@[simp]
theorem of_zero (k : ExternalKind) : zero.of k = 0 := by
  cases k <;> rfl

/-- One more import changes the number of its kind alone. -/
theorem of_increment (c : ImportCounts) (k l : ExternalKind) :
    (c.increment k).of l = if k = l then c.of l + 1 else c.of l := by
  cases k <;> cases l <;> rfl

end ImportCounts

/-- What has been declared so far, each list in order. -/
structure Module where
  types : TypeTable
  imports : Array Import
  imported : ImportCounts
  functions : Array Function
  tables : Array TableType
  memories : Array Limits
  globals : Array Global
  exports : Array Export
  start : Option Nat
  data : Array DataSegment
  customs : Array CustomSection
  deriving DecidableEq

namespace Module

/-- The module in which nothing is declared. -/
def empty : Module where
  types := .empty
  imports := #[]
  imported := .zero
  functions := #[]
  tables := #[]
  memories := #[]
  globals := #[]
  exports := #[]
  start := none
  data := #[]
  customs := #[]

/-- The number of entities of a kind that the module defines. -/
def definedCount (m : Module) : ExternalKind → Nat
  | .func => m.functions.size
  | .table => m.tables.size
  | .memory => m.memories.size
  | .global => m.globals.size

/-- The number of entities of a kind, imported ones included. -/
def count (m : Module) (kind : ExternalKind) : Nat :=
  m.imported.of kind + m.definedCount kind

/-- A memory is imported or defined. -/
def hasMemory (m : Module) : Bool := 0 < m.count .memory

/-- The type of the imported global with an index. -/
def importedGlobal? (m : Module) (index : Nat) : Option GlobalType :=
  (m.imports.toList.filterMap (·.type.global?))[index]?

end Module

end WasmAssembly
