import Mathlib.Algebra.Ring.Nat
import WasmAssembly.Module.Declare

/-!
# `WasmAssembly.Proofs.Module.Admissible`: the rules of the format

What the format asks of a module as far as its declarations go. The rules are said of the module as
it is, without the checks that declarations make: sizes are in order, numbers of locals have 32
bits, whatever refers to something refers to what exists, and names are told apart.
`Module.Admissible` puts them together.

`Module.Initializes` says which constant expressions give a value of which type: it is a relation,
as the expression that reads a global has the type of that global. `Module.resolve` is the meaning
of an index: the imports of a kind come first, then what the module defines, and a function is told
by its signature.
-/

set_option autoImplicit false

namespace WasmAssembly

/-! ### Sizes -/

/-- The smallest size is not above the largest one, where there is a largest one. -/
def Limits.Ordered (l : Limits) : Prop :=
  ∀ max ∈ l.max, l.min ≤ max

/-- No size is above a bound. -/
def Limits.AtMost (l : Limits) (bound : UInt32) : Prop :=
  l.min ≤ bound ∧ ∀ max ∈ l.max, max ≤ bound

/-- The sizes of an entity, if it has any, are in order, and a memory has no more than 65536
pages. -/
def ExternType.LimitsOk {σ : Type} : ExternType σ → Prop
  | .table type => type.limits.Ordered
  | .memory limits => limits.Ordered ∧ limits.AtMost 65536
  | .func _ | .global _ => True

namespace Module

/-- The parameters of a function and its locals, each counted, can be numbered with 32 bits. -/
def LocalsOk (type : FuncType) (locals : List LocalRun) : Prop :=
  type.params.length + (locals.map (·.count.toNat)).sum ≤ 2 ^ 32 - 1

/-! ### Initializers -/

/-- An initializer gives a value of a type. A global is read only if it is imported and cannot
change; a reference is to a function that exists. -/
inductive Initializes (m : Module) : ConstExpr → ValType → Prop where
  /-- An expression that tells its type by itself and refers to nothing. -/
  | plain {init : ConstExpr} {type : ValType} (htype : init.valueType = some type)
      (hclosed : ∀ index, init ≠ .refFunc index) : Initializes m init type
  /-- The value of an imported global. -/
  | globalGet {index : UInt32} {global : GlobalType}
      (hglobal : m.importedGlobal? index.toNat = some global) (hconst : global.isMutable = false) :
      Initializes m (.globalGet index) global.valType
  /-- A reference to a function. -/
  | refFunc {index : UInt32} (hindex : index.toNat < m.count .func) :
      Initializes m (.refFunc index) .funcref

/-! ### Indices -/

/-- An entity with its signature spelled out, if there is one at its type index. -/
def spellOut (m : Module) : ExternType Nat → Option (ExternType FuncType)
  | .func typeIndex => (m.types.get? typeIndex).map .func
  | .table type => some (.table type)
  | .memory limits => some (.memory limits)
  | .global type => some (.global type)

/-- The imports of a kind, in order. -/
def importedOf (m : Module) (kind : ExternalKind) : List (ExternType Nat) :=
  (m.imports.toList.filter (·.kind = kind)).map (·.type)

/-- The entities of a kind that the module defines, in order. -/
def definedOf (m : Module) : ExternalKind → List (ExternType Nat)
  | .func => m.functions.toList.map fun f => .func f.typeIndex
  | .table => m.tables.toList.map .table
  | .memory => m.memories.toList.map .memory
  | .global => m.globals.toList.map fun g => .global g.type

/-- The entity that an index stands for: an import if the index is below their number, and otherwise
what the module defines. -/
def resolve (m : Module) (kind : ExternalKind) (index : Nat) : Option (ExternType FuncType) :=
  let entity? :=
    if index < m.imported.of kind then (m.importedOf kind)[index]?
    else (m.definedOf kind)[index - m.imported.of kind]?
  entity?.bind m.spellOut

/-- A function that the module defines has the signature at its type index. -/
theorem resolve_defined {m : Module} {pos : Nat} {f : Function} (hf : m.functions[pos]? = some f) :
    m.resolve .func (m.imported.func + pos) = (m.types.get? f.typeIndex).map .func := by
  have hdefined : (m.definedOf .func)[pos]? = some (.func f.typeIndex) := by
    rw [definedOf, List.getElem?_map, Array.getElem?_toList, hf, Option.map_some]
  show Option.bind (if m.imported.func + pos < m.imported.func then _
    else (m.definedOf .func)[m.imported.func + pos - m.imported.func]?) _ = _
  rw [if_neg (by omega), Nat.add_sub_cancel_left, hdefined, Option.bind_some, spellOut]

/-! ### All rules -/

/-- A module does not break the rules of the format. Its own accounts (the numbers of imports, the
order of the type table) are not part of this; for them see `WellFormed`. -/
structure Admissible (m : Module) : Prop where
  /-- The type of an imported function is in the table. -/
  importTypes : ∀ i ∈ m.imports, ∀ typeIndex, i.type = .func typeIndex → typeIndex < m.types.size
  /-- The sizes of imported tables and memories are admissible. -/
  importLimits : ∀ i ∈ m.imports, i.type.LimitsOk
  /-- The type of a function is in the table. -/
  functionTypes : ∀ f ∈ m.functions, f.typeIndex < m.types.size
  /-- The locals of a function, parameters included, can be numbered. -/
  functionLocals : ∀ f ∈ m.functions, ∀ type, m.types.get? f.typeIndex = some type →
    LocalsOk type f.locals
  /-- The sizes of tables are in order. -/
  tableLimits : ∀ t ∈ m.tables, t.limits.Ordered
  /-- The sizes of the memory are in order, and it has no more than 65536 pages. -/
  memoryLimits : ∀ l ∈ m.memories, l.Ordered ∧ l.AtMost 65536
  /-- There is one memory at most, imported or defined. -/
  oneMemory : m.count .memory ≤ 1
  /-- The initializer of a global has its type, and refers to what it may refer to. -/
  globalInits : ∀ g ∈ m.globals, m.Initializes g.init g.type.valType
  /-- No name is exported twice. -/
  exportNames : (m.exports.toList.map (·.name)).Nodup
  /-- What is exported exists. -/
  exportIndices : ∀ e ∈ m.exports, e.index < m.count e.kind
  /-- The start function has neither parameters nor results. -/
  startSignature : ∀ index, m.start = some index → m.resolve .func index = some (.func .empty)
  /-- Data is put into a memory. -/
  dataMemory : m.data ≠ #[] → 0 < m.count .memory

end Module

end WasmAssembly
