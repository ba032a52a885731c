import Mathlib.Data.List.Basic
import WasmAssembly.Module.Layout
import WasmAssembly.Proofs.TypeTable

/-!
# `WasmAssembly.Proofs.Module.Form`: the binary form of a module

The entries of each section as bytes, then each payload, then the module: `payload_vector` is the
shape of all sections that list something, and `serialize_eq_frames` says that a module is its
header and its frames one after the other.
-/

set_option autoImplicit false

namespace WasmAssembly

/-! ### Entries -/

/-- What an entry of the import section says. The index of an import is not written. -/
structure Requirement where
  scope : String
  name : String
  type : ExternType Nat
  deriving DecidableEq

/-- What the import section says of an import. -/
def Import.requirement (i : Import) : Requirement :=
  ⟨i.scope, i.name, i.type⟩

/-- What the code section says of a function: its locals and its body, end marker included. -/
structure Code where
  locals : List LocalRun
  body : Bytes
  deriving DecidableEq

/-- What the code section says of a function. -/
def Function.code (f : Function) : Code :=
  ⟨f.locals, f.body⟩

/-- What tells an imported entity behind its kind. -/
def ExternType.form : ExternType Nat → Bytes
  | .func typeIndex => Leb128.unsigned typeIndex
  | .table type => toBytes type
  | .memory limits => toBytes limits
  | .global type => toBytes type

/-- The binary form of an entry of the import section. -/
def Requirement.form (r : Requirement) : Bytes :=
  nameBytes r.scope ++ (nameBytes r.name ++ (toBytes r.type.kind ++ r.type.form))

namespace Import

/-- An import is written as what it asks for. -/
theorem encode_form (b : Buffer) (i : Import) :
    (encode b i).toList = b.toList ++ i.requirement.form := by
  have hfront : (encode ((b.name i.scope).name i.name) i.kind).toList
      = b.toList ++ (nameBytes i.scope ++ (nameBytes i.name ++ toBytes i.kind)) := by
    rw [toList_encode, Buffer.toList_name, Buffer.toList_name, List.append_assoc, List.append_assoc]
    rfl
  have hback : b.toList ++ i.requirement.form
      = (encode ((b.name i.scope).name i.name) i.kind).toList ++ i.type.form := by
    rw [hfront, List.append_assoc, List.append_assoc, List.append_assoc]
    rfl
  rw [hback]
  -- What comes behind the kind depends on it.
  obtain ⟨scope, name, index, type⟩ := i
  cases type with
  | func typeIndex => exact Buffer.toList_count _ typeIndex
  | table type => exact toList_encode _ type
  | memory limits => exact toList_encode _ limits
  | global type => exact toList_encode _ type

instance : LawfulEncode Import := .of_form encode_form

/-- The bytes of an import are those of what it asks for. -/
theorem toBytes_eq (i : Import) : toBytes i = i.requirement.form :=
  toBytes_of_form encode_form i

end Import

namespace Export

/-- An export is written as its name, its kind and its index. -/
theorem encode_form (b : Buffer) (e : Export) :
    (encode b e).toList
      = b.toList ++ (nameBytes e.name ++ (toBytes e.kind ++ Leb128.unsigned e.index)) := by
  show ((encode (b.name e.name) e.kind).count e.index).toList = _
  rw [Buffer.toList_count, toList_encode, Buffer.toList_name, List.append_assoc, List.append_assoc]
  rfl

instance : LawfulEncode Export := .of_form encode_form

/-- The bytes of an export are those of its name, its kind and its index. -/
theorem toBytes_eq (e : Export) :
    toBytes e = nameBytes e.name ++ (toBytes e.kind ++ Leb128.unsigned e.index) :=
  toBytes_of_form encode_form e

end Export

namespace Global

/-- A global is written as its type and its initializer. -/
theorem encode_form (b : Buffer) (g : Global) :
    (encode b g).toList = b.toList ++ (toBytes g.type ++ toBytes g.init) := by
  show (encode (encode b g.type) g.init).toList = _
  rw [toList_encode, toList_encode, List.append_assoc]

instance : LawfulEncode Global := .of_form encode_form

/-- The bytes of a global are those of its type and its initializer. -/
theorem toBytes_eq (g : Global) : toBytes g = toBytes g.type ++ toBytes g.init :=
  toBytes_of_form encode_form g

end Global

namespace LocalRun

/-- A run of locals is written as their number and their type. -/
theorem encode_form (b : Buffer) (run : LocalRun) :
    (encode b run).toList = b.toList ++ (Leb128.unsigned run.count.toNat ++ toBytes run.type) := by
  show (encode (b.u32 run.count) run.type).toList = _
  rw [toList_encode, Buffer.toList_u32, List.append_assoc]

instance : LawfulEncode LocalRun := .of_form encode_form

/-- The bytes of a run of locals are those of their number and their type. -/
theorem toBytes_eq (run : LocalRun) :
    toBytes run = Leb128.unsigned run.count.toNat ++ toBytes run.type :=
  toBytes_of_form encode_form run

end LocalRun

namespace DataSegment

/-- A data segment is written as the number of the memory, the offset and the bytes behind their
length. -/
theorem encode_form (b : Buffer) (s : DataSegment) :
    (encode b s).toList
      = b.toList ++ (Leb128.unsigned 0 ++
          (toBytes (ConstExpr.i32 s.offset.toInt32) ++ sizedBytes s.bytes)) := by
  show ((encode (b.count 0) (ConstExpr.i32 s.offset.toInt32)).sized s.bytes).toList = _
  rw [Buffer.toList_sized, toList_encode, Buffer.toList_count, List.append_assoc, List.append_assoc]
  rfl

instance : LawfulEncode DataSegment := .of_form encode_form

/-- The bytes of a data segment are those of its parts. -/
theorem toBytes_eq (s : DataSegment) :
    toBytes s = Leb128.unsigned 0 ++
      (toBytes (ConstExpr.i32 s.offset.toInt32) ++ sizedBytes s.bytes) :=
  toBytes_of_form encode_form s

end DataSegment

namespace CustomSection

/-- A custom section is written as its name and its bytes, without a length. -/
theorem encode_form (b : Buffer) (c : CustomSection) :
    (encode b c).toList = b.toList ++ (nameBytes c.name ++ c.bytes) := by
  show ((b.name c.name).append c.bytes).toList = _
  rw [Buffer.toList_append, Buffer.toList_name, List.append_assoc]
  rfl

instance : LawfulEncode CustomSection := .of_form encode_form

/-- The bytes of a custom section are those of its name and its own. -/
theorem toBytes_eq (c : CustomSection) : toBytes c = nameBytes c.name ++ c.bytes :=
  toBytes_of_form encode_form c

end CustomSection

/-- The binary form of an entry of the code section. -/
def Code.form (c : Code) : Bytes :=
  sizedBytes (vectorBytes c.locals ++ c.body)

/-- The code of a function is written behind its length. -/
theorem Function.toList_encodeCode (b : Buffer) (f : Function) :
    (f.encodeCode b).toList = b.toList ++ f.code.form := by
  have hcode : ((Buffer.empty.vector f.locals).append f.body).toList
      = vectorBytes f.locals ++ f.body := by
    rw [Buffer.toList_append, Buffer.toList_vector, Buffer.toList_empty, List.nil_append]
  rw [encodeCode, hcode, Buffer.toList_sized]
  rfl

/-! ### Payloads -/

/-- The payload of a section that lists items: their number and the items, or nothing if there are
none. -/
def listPayload {α : Type} (form : α → Bytes) (xs : List α) : Option Bytes :=
  if xs = [] then none else some (Leb128.unsigned xs.length ++ xs.flatMap form)

/-- A section of entries has the payload of a list. -/
theorem vectorPayload_eq {α : Type} {form : α → Bytes} {xs : List α} {count : Nat}
    {entries : Buffer} (hcount : count = xs.length) (hentries : entries.toList = xs.flatMap form) :
    vectorPayload count entries = listPayload form xs := by
  rw [vectorPayload, listPayload, hcount, hentries]
  cases xs with
  | nil => rfl
  | cons x xs =>
      rw [List.length_cons, if_neg (Nat.succ_ne_zero _), if_neg (List.cons_ne_nil _ _),
        Buffer.toList_append, Buffer.toList_count, Buffer.toList_empty, List.nil_append]

namespace Module

variable (m : Module)

/-- The section of types lists the signatures. -/
theorem payload_types (h : m.types.Lawful) :
    m.payload .types = listPayload toBytes m.types.toList := by
  -- What is written is not the signatures but the forms that the table has stored for them.
  refine vectorPayload_eq TypeTable.length_toList.symm ?_
  rw [Buffer.toList_foldl (fun b entry => Buffer.toList_append b entry.1), Buffer.toList_empty,
    List.nil_append, TypeTable.toList, List.flatMap_map]
  exact List.flatMap_congr fun entry hentry => h.forms entry (Array.mem_toList_iff.mp hentry)

/-- The payloads of the sections that list entities of one type. -/
theorem payload_entries {α : Type} [Encode α] [LawfulEncode α] (xs : Array α) :
    vectorPayload xs.size (Buffer.empty.entries xs.toList) = listPayload toBytes xs.toList :=
  vectorPayload_eq Array.length_toList.symm (Buffer.toList_entries _ _)

/-- The section of tables lists the tables. -/
theorem payload_tables : m.payload .tables = listPayload toBytes m.tables.toList :=
  payload_entries m.tables

/-- The section of memories lists the memories. -/
theorem payload_memories : m.payload .memories = listPayload toBytes m.memories.toList :=
  payload_entries m.memories

/-- The section of globals lists the globals. -/
theorem payload_globals : m.payload .globals = listPayload toBytes m.globals.toList :=
  payload_entries m.globals

/-- The section of exports lists the exports. -/
theorem payload_exports : m.payload .exports = listPayload toBytes m.exports.toList :=
  payload_entries m.exports

/-- The section of data lists the data segments. -/
theorem payload_data : m.payload .data = listPayload toBytes m.data.toList :=
  payload_entries m.data

/-- The index of an import is not written. -/
theorem payload_imports :
    m.payload .imports
      = listPayload Requirement.form (m.imports.toList.map Import.requirement) := by
  refine vectorPayload_eq (by rw [List.length_map, Array.length_toList]) ?_
  rw [Buffer.toList_entries, Buffer.toList_empty, List.nil_append, List.flatMap_map]
  exact List.flatMap_congr fun i _ => i.toBytes_eq

/-- The section of functions lists their type indices. -/
theorem payload_functions :
    m.payload .functions = listPayload Leb128.unsigned (m.functions.toList.map (·.typeIndex)) := by
  refine vectorPayload_eq (by rw [List.length_map, Array.length_toList]) ?_
  rw [Buffer.toList_foldl fun b f => Buffer.toList_count b f.typeIndex, List.flatMap_map]
  rfl

/-- The section of code lists the code of the functions. -/
theorem payload_code :
    m.payload .code = listPayload Code.form (m.functions.toList.map Function.code) := by
  refine vectorPayload_eq (by rw [List.length_map, Array.length_toList]) ?_
  rw [Buffer.toList_foldl Function.toList_encodeCode, List.flatMap_map]
  rfl

/-! ### The whole module -/

/-- The sections that a module is written as, in order: those of the format that are not left out,
and the custom ones. -/
def frames : List (SectionId × Bytes) :=
  (SectionId.order.filterMap fun id => (m.payload id).map (id, ·)) ++
    m.customs.toList.map fun c => (.custom, toBytes c)

/-- The bytes of a section. -/
def frameBytes (s : SectionId × Bytes) : Bytes :=
  s.1.number :: sizedBytes s.2

/-- A section is written as its number and its payload behind the length. -/
theorem frame_eq (id : SectionId) (payload : Bytes) :
    id.frame payload = frameBytes (id, payload) := by
  rw [SectionId.frame, Buffer.toList_sized, Buffer.toList_byte, Buffer.toList_empty,
    List.nil_append, List.singleton_append]
  rfl

/-- The sections of some numbers, with those left out that have no payload. -/
theorem flatMap_frameBytes (ids : List SectionId) (payload : SectionId → Option Bytes) :
    (ids.filterMap fun id => (payload id).map (id, ·)).flatMap frameBytes
      = ids.flatMap fun id => ((payload id).map id.frame).getD [] := by
  induction ids with
  | nil => rfl
  | cons id ids ih =>
      rw [List.filterMap_cons, List.flatMap_cons, ← ih]
      cases payload id with
      | none => rfl
      | some bytes => exact congrArg (· ++ _) (frame_eq id bytes).symm

/-- A module is its header and its sections. -/
theorem serialize_eq_frames : m.serialize = magic ++ version ++ m.frames.flatMap frameBytes := by
  have hstandard : SectionId.order.flatMap m.sectionBytes
      = SectionId.order.flatMap fun id => ((m.payload id).map id.frame).getD [] := rfl
  have hcustom : m.customSections
      = (m.customs.toList.map fun c => (SectionId.custom, toBytes c)).flatMap frameBytes := by
    rw [customSections, List.flatMap_map]
    exact List.flatMap_congr fun c _ => frame_eq .custom (toBytes c)
  rw [serialize, frames, List.flatMap_append, flatMap_frameBytes, hstandard, hcustom,
    List.append_assoc]

end Module

end WasmAssembly
