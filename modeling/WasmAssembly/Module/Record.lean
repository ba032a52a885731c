import WasmAssembly.Module.Basic

/-!
# `WasmAssembly.Module.Record`: the log

What is recorded while a module is declared and laid out. A record is data; `text` is its
wording, and `level` says how much detail it is.
-/

set_option autoImplicit false

namespace WasmAssembly

/-- An entry of the log. -/
inductive Record where
  | imported (scope name : String) (kind : ExternalKind) (index : Nat)
  | function (index typeIndex : Nat)
  | table (index : Nat) (type : TableType)
  | memory (index : Nat) (limits : Limits)
  | global (index : Nat) (type : GlobalType)
  | exported (name : String) (kind : ExternalKind) (index : Nat)
  | data (index size : Nat) (offset : UInt32)
  | sectionOmitted (id : SectionId)
  | sectionEntries (id : SectionId) (count : Nat)
  | sectionPayload (id : SectionId) (size : Nat)
  | serialized (size : Nat)
  deriving DecidableEq

/-- How much detail a record is. -/
inductive Record.Level where
  | debug
  | trace
  deriving DecidableEq

namespace Record

/-- The name of a level. -/
def Level.name : Level → String
  | debug => "DEBUG"
  | trace => "TRACE"

/-- The level of a record: what is left out matters less than what is there. -/
def level : Record → Level
  | sectionOmitted _ => .trace
  | _ => .debug

/-- The wording of a record. -/
def text : Record → String
  | imported scope name kind index => s!"import {scope}.{name}: {kind.noun} index {index}"
  | function index typeIndex => s!"function {index}: type {typeIndex}"
  | table index type => s!"table {index}: {type.element.name} {type.limits.text}"
  | memory index limits => s!"memory {index}: {limits.text}"
  | global index type => s!"global {index}: {type.valType.name} mutable={type.isMutable}"
  | exported name kind index => s!"export `{name}`: {kind.noun} {index}"
  | data index size offset => s!"data {index}: {size} bytes at {offset}"
  | sectionOmitted id => s!"{id.name} section omitted"
  | sectionEntries id count => s!"{id.name} section: {count} entries"
  | sectionPayload id size => s!"{id.name} section: {size} payload bytes"
  | serialized size => s!"serialized module: {size} bytes"

end Record

end WasmAssembly
