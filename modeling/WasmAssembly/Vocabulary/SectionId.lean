import WasmAssembly.Bytes

/-!
# `WasmAssembly.Vocabulary.SectionId`: the sections of a module

The header of a module, the sections that may follow it, and their order.
-/

set_option autoImplicit false

namespace WasmAssembly

/-- The first four bytes of a module. -/
def magic : Bytes := [0x00, 0x61, 0x73, 0x6d]

/-- The version of the format, after `magic`. -/
def version : Bytes := [0x01, 0x00, 0x00, 0x00]

/-- The most pages of 64 KiB that a memory may have. -/
def maxMemoryPages : UInt32 := 65536

/-- The sections of a module. -/
inductive SectionId where
  | custom
  | types
  | imports
  | functions
  | tables
  | memories
  | globals
  | exports
  | start
  | elements
  | code
  | data
  | dataCount
  deriving DecidableEq, Inhabited

namespace SectionId

/-- Every section, by number. -/
def all : List SectionId :=
  [custom, types, imports, functions, tables, memories, globals, exports, start, elements, code,
    data, dataCount]

/-- The order in which the sections of a module appear, custom ones apart. The number of data
segments stands before the code that may refer to them. -/
def order : List SectionId :=
  [types, imports, functions, tables, memories, globals, exports, start, elements, dataCount, code,
    data]

/-- The number of a section. -/
def number : SectionId → UInt8
  | custom => 0
  | types => 1
  | imports => 2
  | functions => 3
  | tables => 4
  | memories => 5
  | globals => 6
  | exports => 7
  | start => 8
  | elements => 9
  | code => 10
  | data => 11
  | dataCount => 12

/-- The section with a number. -/
def ofNumber? (number : UInt8) : Option SectionId :=
  all.find? (·.number == number)

/-- The number of a section tells the section. -/
theorem ofNumber?_number (id : SectionId) : ofNumber? id.number = some id := by
  cases id <;> rfl

/-- The name of a section. -/
def name : SectionId → String
  | custom => "Custom"
  | types => "Type"
  | imports => "Import"
  | functions => "Function"
  | tables => "Table"
  | memories => "Memory"
  | globals => "Global"
  | exports => "Export"
  | start => "Start"
  | elements => "Element"
  | code => "Code"
  | data => "Data"
  | dataCount => "DataCount"

end SectionId

end WasmAssembly
