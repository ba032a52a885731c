import WasmAssembly.Proofs.Module.Form
import WasmAssembly.Proofs.Reading.Vocabulary

/-!
# `WasmAssembly.Proofs.Reading.Entries`: reading the entries of sections

A reader for the entries of each section and one for sections, from the layout of the format. What
it finds in the bytes of an entry is the entry. The bodies of functions and the contents of custom
sections have no length of their own: they are what is left of the bytes in which they stand.
-/

set_option autoImplicit false

namespace WasmAssembly

namespace ByteReader

/-- What is imported, by its kind. -/
def externType : ExternalKind → ByteReader (ExternType Nat)
  | .func => do
    let typeIndex ← index
    return .func typeIndex
  | .table => do
    let type ← tableType
    return .table type
  | .memory => do
    let size ← limits
    return .memory size
  | .global => do
    let type ← globalType
    return .global type

/-- An entry of the import section. -/
def requirement : ByteReader Requirement := do
  let scope ← name
  let field ← name
  let kind ← externalKind
  let type ← externType kind
  return ⟨scope, field, type⟩

/-- An entry of the global section. -/
def globalEntry : ByteReader Global := do
  let type ← globalType
  let init ← constExpr
  return ⟨type, init⟩

/-- An entry of the export section. -/
def exportEntry : ByteReader Export := do
  let field ← name
  let kind ← externalKind
  let entity ← index
  return ⟨field, kind, entity⟩

/-- A run of locals. -/
def localRun : ByteReader LocalRun := do
  let count ← u32
  let type ← valType
  return ⟨count, type⟩

/-- The code that some bytes consist of. -/
def codeOf? (bytes : Bytes) : Option Code :=
  whole (do let locals ← vector localRun; let body ← remaining; return ⟨locals, body⟩) bytes

/-- An entry of the code section. -/
def code : ByteReader Code := do
  let bytes ← sized
  ofOption (codeOf? bytes)

/-- A data segment, from the memory, the offset and the bytes that are given for it. The memory is
the first and the offset is an integer of 32 bits, taken as unsigned. -/
def segmentOf? (memory : Nat) (offset : ConstExpr) (bytes : Bytes) : Option DataSegment :=
  match memory, offset with
  | 0, .i32 value => some ⟨value.toUInt32, bytes⟩
  | _, _ => none

/-- An entry of the data section. -/
def dataSegment : ByteReader DataSegment := do
  let memory ← index
  let offset ← constExpr
  let bytes ← sized
  ofOption (segmentOf? memory offset bytes)

/-- The custom section that some bytes are the payload of. -/
def customOf? (payload : Bytes) : Option CustomSection :=
  whole (do let title ← name; let bytes ← remaining; return ⟨title, bytes⟩) payload

/-- What the number of a section stands for. -/
def sectionId : ByteReader SectionId := do
  let number ← byte
  ofOption (SectionId.ofNumber? number)

/-- A section: its number and its payload. -/
def frame : ByteReader (SectionId × Bytes) := do
  let id ← sectionId
  let payload ← sized
  return (id, payload)

end ByteReader

open ByteReader

/-! ### Imports and exports -/

/-- Type indices have 32 bits; nothing else of an import is bounded. -/
theorem reads_externType (type : ExternType Nat)
    (h : ∀ typeIndex, type = .func typeIndex → typeIndex < UInt32.size) :
    Reads (externType type.kind) type.form type := by
  cases type with
  | func typeIndex => exact (reads_index (h typeIndex rfl)).map _
  | table type => exact (reads_tableType type).map _
  | memory limits => exact (reads_limits limits).map _
  | global type => exact (reads_globalType type).map _

/-- An import is read as what it asks for. -/
theorem readsShort_requirement (r : Requirement)
    (h : ∀ typeIndex, r.type = .func typeIndex → typeIndex < UInt32.size) :
    ReadsShort requirement r.form r :=
  (readsShort_name r.scope).bind <| (readsShort_name r.name).bind <|
    (reads_externalKind r.type.kind).short.bind ((reads_externType r.type h).short.map _)

/-- An export is read from its bytes. -/
theorem readsShort_exportEntry (e : Export) (h : e.index < UInt32.size) :
    ReadsShort exportEntry (toBytes e) e := by
  rw [Export.toBytes_eq]
  exact (readsShort_name e.name).bind
    ((reads_externalKind e.kind).short.bind ((reads_index h).short.map _))

/-! ### Globals, code and data -/

/-- A global is read from its bytes. -/
theorem reads_globalEntry (g : Global) : Reads globalEntry (toBytes g) g := by
  rw [Global.toBytes_eq]
  exact (reads_globalType g.type).bind ((reads_constExpr g.init).map _)

/-- A run of locals is read from its bytes. -/
theorem reads_localRun (run : LocalRun) : Reads localRun (toBytes run) run := by
  rw [LocalRun.toBytes_eq]
  exact (reads_u32 run.count).bind ((reads_valType run.type).map _)

/-- A run of locals has a byte. -/
theorem toBytes_localRun_ne_nil (run : LocalRun) : toBytes run ≠ [] := by
  rw [LocalRun.toBytes_eq]
  exact List.append_ne_nil_of_left_ne_nil (Leb128.unsigned_ne_nil _) _

/-- The locals of a function are read from their bytes. -/
theorem readsShort_localRuns (runs : List LocalRun) :
    ReadsShort (vector localRun) (vectorBytes runs) runs :=
  readsShort_vector (fun run _ => (reads_localRun run).short) fun run _ =>
    toBytes_localRun_ne_nil run

/-- The locals tell where they end, and the body is the rest. -/
theorem codeOf?_append (c : Code) (h : (vectorBytes c.locals ++ c.body).length < UInt32.size) :
    codeOf? (vectorBytes c.locals ++ c.body) = some c := by
  rw [List.length_append] at h
  exact whole_bind_remaining (readsShort_localRuns c.locals (by omega)) _ c.body

/-- The code of a function is read from its bytes. -/
theorem readsShort_code (c : Code) : ReadsShort code c.form c := by
  intro hshort
  -- Two lengths are bounded: that of the entry, and with it that of the locals inside.
  have hbytes : (vectorBytes c.locals ++ c.body).length < UInt32.size := by
    rw [Code.form, sizedBytes, List.length_append] at hshort
    omega
  exact (reads_sized hbytes).lookup (codeOf?_append c hbytes)

/-- A data segment is read from its bytes. -/
theorem readsShort_dataSegment (s : DataSegment) : ReadsShort dataSegment (toBytes s) s := by
  rw [DataSegment.toBytes_eq]
  -- The offset is written as a signed word and taken back as an unsigned one.
  have hsegment : segmentOf? 0 (.i32 s.offset.toInt32) s.bytes = some s := by
    rw [segmentOf?, UInt32.toUInt32_toInt32]
  exact (reads_index (by decide)).short.bind
    ((reads_constExpr _).short.bind ((readsShort_sized s.bytes).lookup hsegment))

/-! ### Entries take bytes

Every entry takes at least one byte, so there are no more entries in a section than bytes. -/

/-- What has its length in front of it has a byte. -/
theorem sizedBytes_ne_nil (payload : Bytes) : sizedBytes payload ≠ [] :=
  List.append_ne_nil_of_left_ne_nil (Leb128.unsigned_ne_nil _) _

/-- A signature has a byte. -/
theorem toBytes_funcType_ne_nil (t : FuncType) : toBytes t ≠ [] := by
  rw [FuncType.toBytes_eq]
  exact List.cons_ne_nil _ _

/-- An import has a byte. -/
theorem form_requirement_ne_nil (r : Requirement) : r.form ≠ [] :=
  List.append_ne_nil_of_left_ne_nil (sizedBytes_ne_nil _) _

/-- The type of a table has a byte. -/
theorem toBytes_tableType_ne_nil (t : TableType) : toBytes t ≠ [] := by
  rw [TableType.toBytes_eq, RefType.toBytes_eq]
  exact List.cons_ne_nil _ _

/-- Limits have a byte. -/
theorem toBytes_limits_ne_nil (l : Limits) : toBytes l ≠ [] := by
  rw [Limits.toBytes_eq, Limits.form]
  cases l.max with
  | none => exact List.cons_ne_nil _ _
  | some max => exact List.cons_ne_nil _ _

/-- A global has a byte. -/
theorem toBytes_globalEntry_ne_nil (g : Global) : toBytes g ≠ [] := by
  rw [Global.toBytes_eq, GlobalType.toBytes_eq, ValType.toBytes_eq]
  exact List.cons_ne_nil _ _

/-- An export has a byte. -/
theorem toBytes_exportEntry_ne_nil (e : Export) : toBytes e ≠ [] := by
  rw [Export.toBytes_eq]
  exact List.append_ne_nil_of_left_ne_nil (sizedBytes_ne_nil _) _

/-- A data segment has a byte. -/
theorem toBytes_dataSegment_ne_nil (s : DataSegment) : toBytes s ≠ [] := by
  rw [DataSegment.toBytes_eq]
  exact List.append_ne_nil_of_left_ne_nil (Leb128.unsigned_ne_nil _) _

/-! ### Sections -/

/-- A custom section is read from its payload. -/
theorem customOf?_toBytes (c : CustomSection) (h : (toBytes c).length < UInt32.size) :
    customOf? (toBytes c) = some c := by
  rw [CustomSection.toBytes_eq] at h ⊢
  rw [List.length_append] at h
  exact whole_bind_remaining (readsShort_name c.name (by omega)) _ c.bytes

/-- The number of a section is read as the section. -/
theorem reads_sectionId (id : SectionId) : Reads sectionId [id.number] id :=
  (reads_byte id.number).lookup (SectionId.ofNumber?_number id)

/-- A section is read as its number and its payload. -/
theorem reads_frame {id : SectionId} {payload : Bytes} (h : payload.length < UInt32.size) :
    Reads frame (Module.frameBytes (id, payload)) (id, payload) :=
  (reads_sectionId id).bind ((reads_sized h).map _)

end WasmAssembly
