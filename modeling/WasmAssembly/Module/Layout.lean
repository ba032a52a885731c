import WasmAssembly.Module.Record

/-!
# `WasmAssembly.Module.Layout`: modules as bytes

A module is written as a header and then its sections: those of the format in their order, then
the custom ones as declared. A section is a number, the length of its payload and the payload; one
that would hold nothing is left out. `records` and `sectionRecords` say what the log shows of it.
-/

set_option autoImplicit false

namespace WasmAssembly

instance : Encode Import where
  encode b i :=
    let b := encode ((b.name i.scope).name i.name) i.kind
    match i.type with
    | .func typeIndex => b.count typeIndex
    | .table type => encode b type
    | .memory limits => encode b limits
    | .global type => encode b type

instance : Encode Export where
  encode b e := (encode (b.name e.name) e.kind).count e.index

instance : Encode Global where
  encode b g := encode (encode b g.type) g.init

instance : Encode LocalRun where
  encode b run := encode (b.u32 run.count) run.type

/-- A data segment is put into memory 0 at a constant offset. The constant is signed and has the
bits of the offset, which is not. -/
instance : Encode DataSegment where
  encode b s := (encode (b.count 0) (ConstExpr.i32 s.offset.toInt32)).sized s.bytes

instance : Encode CustomSection where
  encode b c := (b.name c.name).append c.bytes

/-- Writes the code of a function: its locals and its body, after their common length. -/
def Function.encodeCode (b : Buffer) (f : Function) : Buffer :=
  b.sized ((Buffer.empty.vector f.locals).append f.body).toList

/-- A section: its number, the length of its payload, and the payload. -/
def SectionId.frame (id : SectionId) (payload : Bytes) : Bytes :=
  ((Buffer.empty.byte id.number).sized payload).toList

/-- The payload of a section that is a vector, or nothing if it would have no entries. -/
def vectorPayload (count : Nat) (entries : Buffer) : Option Bytes :=
  if count = 0 then none else some ((Buffer.empty.count count).append entries.toList).toList

namespace Module

/-- The number of entries of a section that is a vector. -/
def entryCount (m : Module) : SectionId → Option Nat
  | .types => some m.types.size
  | .imports => some m.imports.size
  | .functions | .code => some m.functions.size
  | .tables => some m.tables.size
  | .memories => some m.memories.size
  | .globals => some m.globals.size
  | .exports => some m.exports.size
  | .data => some m.data.size
  | .custom | .start | .elements | .dataCount => none

/-- The payload of a section, or nothing if the section is left out. No declaration makes an
element segment. -/
def payload (m : Module) : SectionId → Option Bytes
  | .types =>
    vectorPayload m.types.size
      (m.types.entries.toList.foldl (fun b entry => b.append entry.1) .empty)
  | .imports => vectorPayload m.imports.size (Buffer.empty.entries m.imports.toList)
  | .functions =>
    vectorPayload m.functions.size
      (m.functions.toList.foldl (fun b f => b.count f.typeIndex) .empty)
  | .tables => vectorPayload m.tables.size (Buffer.empty.entries m.tables.toList)
  | .memories => vectorPayload m.memories.size (Buffer.empty.entries m.memories.toList)
  | .globals => vectorPayload m.globals.size (Buffer.empty.entries m.globals.toList)
  | .exports => vectorPayload m.exports.size (Buffer.empty.entries m.exports.toList)
  | .start => m.start.map fun index => (Buffer.empty.count index).toList
  | .dataCount =>
    if m.data.size = 0 then none else some (Buffer.empty.count m.data.size).toList
  | .code => vectorPayload m.functions.size (m.functions.toList.foldl Function.encodeCode .empty)
  | .data => vectorPayload m.data.size (Buffer.empty.entries m.data.toList)
  | .elements | .custom => none

/-- The custom sections, in the order in which they were declared. -/
def customSections (m : Module) : Bytes :=
  m.customs.toList.flatMap fun c => SectionId.custom.frame (toBytes c)

/-- One section of the module, or no bytes if it is left out. The custom sections count as one. -/
def sectionBytes (m : Module) (id : SectionId) : Bytes :=
  if id = .custom then m.customSections else ((m.payload id).map id.frame).getD []

/-- The module as bytes. -/
def serialize (m : Module) : Bytes :=
  magic ++ version ++ SectionId.order.flatMap m.sectionBytes ++ m.customSections

/-! ### Records -/

/-- What the log shows of one section. Sections left out are noted, except the element section,
which is never there. -/
def sectionRecords (m : Module) (id : SectionId) : List Record :=
  match id with
  | .custom => m.customs.toList.map fun c => .sectionPayload .custom (toBytes c).length
  | .elements => []
  | id =>
    match m.payload id with
    | none => [.sectionOmitted id]
    | some payload =>
      (m.entryCount id).toList.map (.sectionEntries id) ++ [.sectionPayload id payload.length]

/-- What the log shows of the whole module being written. -/
def serializeRecords (m : Module) : List Record :=
  SectionId.order.flatMap m.sectionRecords ++ m.sectionRecords .custom ++
    [.serialized m.serialize.length]

end Module

end WasmAssembly
