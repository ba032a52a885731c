import WasmAssembly.Module.Basic

/-!
# `WasmAssembly.Manifest`: the boundary of a module

A manifest lists what a module needs from outside, in the order in which it is resolved, and what
it offers. `Module.manifest` reads it off the declarations.
-/

set_option autoImplicit false

namespace WasmAssembly

/-- What has to be supplied for one import. Functions have a signature. -/
structure ImportEntry where
  scope : String
  name : String
  kind : ExternalKind
  index : UInt32
  signature : Option FuncType
  deriving DecidableEq

/-- What is offered under a name. -/
structure ExportEntry where
  name : String
  kind : ExternalKind
  index : UInt32
  deriving DecidableEq

/-- The imports, the exports and the start function of a module. -/
structure Manifest where
  imports : List ImportEntry
  exports : List ExportEntry
  start : Option UInt32
  deriving DecidableEq

namespace Manifest

/-- The first export with a name. -/
def findExport? (manifest : Manifest) (name : String) : Option ExportEntry :=
  manifest.exports.find? (·.name == name)

/-- The imports from one namespace, in order. -/
def importsFrom (manifest : Manifest) (scope : String) : List ImportEntry :=
  manifest.imports.filter (·.scope == scope)

end Manifest

namespace Module

/-- The signature of an imported entity, if it is a function. -/
def signature? (m : Module) : ExternType Nat → Option FuncType
  | .func typeIndex => m.types.get? typeIndex
  | _ => none

/-- The boundary of the module. -/
def manifest (m : Module) : Manifest where
  imports := m.imports.toList.map fun i =>
    ⟨i.scope, i.name, i.kind, UInt32.ofNat i.index, m.signature? i.type⟩
  exports := m.exports.toList.map fun e => ⟨e.name, e.kind, UInt32.ofNat e.index⟩
  start := m.start.map UInt32.ofNat

end Module

end WasmAssembly
