import WasmAssembly.Proofs.Bytes.Ascii
import WasmAssembly.Proofs.Leb128.Decoding
import WasmAssembly.Proofs.Module.Limit
import WasmAssembly.Proofs.Module.Run
import WasmAssembly.Proofs.Reading.Entries

/-!
# `WasmAssembly.Proofs.Reading.Lengths`: lengths of more than 32 bits

The lengths of the format have 32 bits. They are written as numbers of any size, and no declaration
is refused because something in it is too long, so there are modules that no reader can walk.

`lengths_serialize` says how far that goes. Six kinds of runs are written behind their length, which
`Module.Sized` lists: the payloads of sections, the code of functions, the names of imports, exports
and custom sections, and the bytes of data segments. A reader finds the length of such a run if the
run has fewer than `2 ^ 32` bytes, and finds an error otherwise. `longName_not_framed` is an import
that is accepted and cannot be read: its name has `2 ^ 32` bytes.
-/

set_option autoImplicit false

namespace WasmAssembly

namespace Module

/-! ### What is written behind its length -/

/-- The runs of bytes of a module that have their length in front of them. -/
inductive Sized (m : Module) : Bytes → Prop where
  /-- The payload of a section. -/
  | payload {id : SectionId} {bytes : Bytes} (h : m.payload id = some bytes) : Sized m bytes
  /-- The payload of a custom section. -/
  | custom {c : CustomSection} (h : c ∈ m.customs) : Sized m (toBytes c)
  /-- The locals and the body of a function. -/
  | code {f : Function} (h : f ∈ m.functions) : Sized m (vectorBytes f.locals ++ f.body)
  /-- The namespace of an import. -/
  | importScope {i : Import} (h : i ∈ m.imports) : Sized m (Bytes.utf8 i.scope)
  /-- The name of an import. -/
  | importName {i : Import} (h : i ∈ m.imports) : Sized m (Bytes.utf8 i.name)
  /-- The name of an export. -/
  | exportName {e : Export} (h : e ∈ m.exports) : Sized m (Bytes.utf8 e.name)
  /-- The name of a custom section. -/
  | customName {c : CustomSection} (h : c ∈ m.customs) : Sized m (Bytes.utf8 c.name)
  /-- The bytes of a data segment. -/
  | segment {s : DataSegment} (h : s ∈ m.data) : Sized m s.bytes

variable {m : Module}

/-- The payload of each section stands behind its length in the bytes of the module. -/
theorem infix_of_mem_frames {s : SectionId × Bytes} (h : s ∈ m.frames) :
    sizedBytes s.2 <:+: m.serialize := by
  have hframe : frameBytes s <:+: m.frames.flatMap frameBytes := by
    rw [List.flatMap_def]
    exact List.infix_of_mem_flatten (List.mem_map_of_mem h)
  rw [serialize_eq_frames]
  calc sizedBytes s.2 <:+: frameBytes s := (List.suffix_cons _ _).isInfix
    _ <:+: m.frames.flatMap frameBytes := hframe
    _ <:+: magic ++ version ++ m.frames.flatMap frameBytes := (List.suffix_append _ _).isInfix

/-- A payload of the format is that of a section. -/
theorem mem_frames_of_payload {id : SectionId} {bytes : Bytes} (h : m.payload id = some bytes) :
    (id, bytes) ∈ m.frames := by
  have hid : id ∈ SectionId.order := by
    cases id with
    | custom => exact absurd h nofun
    | _ => decide
  refine List.mem_append_left _ (List.mem_filterMap.mpr ⟨id, hid, ?_⟩)
  rw [h, Option.map_some]

/-- A custom section is a section. -/
theorem mem_frames_of_custom {c : CustomSection} (h : c ∈ m.customs) :
    (SectionId.custom, toBytes c) ∈ m.frames :=
  List.mem_append_right _ (List.mem_map_of_mem (Array.mem_toList_iff.mpr h))

/-- The entries of a section stand in the bytes of the module. -/
theorem infix_of_mem_entries {α : Type} {id : SectionId} {form : α → Bytes} {xs : List α}
    (hpayload : m.payload id = listPayload form xs) {x : α} (hx : x ∈ xs) :
    form x <:+: m.serialize := by
  have hsome : m.payload id = some (Leb128.unsigned xs.length ++ xs.flatMap form) := by
    rw [hpayload, listPayload, if_neg (List.ne_nil_of_mem hx)]
  have hentry : form x <:+: xs.flatMap form := by
    rw [List.flatMap_def]
    exact List.infix_of_mem_flatten (List.mem_map_of_mem hx)
  calc form x <:+: xs.flatMap form := hentry
    _ <:+: Leb128.unsigned xs.length ++ xs.flatMap form := (List.suffix_append _ _).isInfix
    _ <:+: sizedBytes (Leb128.unsigned xs.length ++ xs.flatMap form) :=
      (List.suffix_append _ _).isInfix
    _ <:+: m.serialize := infix_of_mem_frames (mem_frames_of_payload hsome)

/-- What has its length in front of it stands like this in the bytes of the module. -/
theorem Sized.infix {run : Bytes} (h : m.Sized run) : sizedBytes run <:+: m.serialize := by
  cases h with
  | payload h => exact infix_of_mem_frames (mem_frames_of_payload h)
  | custom h => exact infix_of_mem_frames (mem_frames_of_custom h)
  | @code f h =>
      have hmem := List.mem_map_of_mem (f := Function.code) (Array.mem_toList_iff.mpr h)
      exact infix_of_mem_entries (payload_code m) hmem
  | @importScope i h =>
      have hmem := List.mem_map_of_mem (f := Import.requirement) (Array.mem_toList_iff.mpr h)
      exact (List.prefix_append _ _).isInfix.trans (infix_of_mem_entries (payload_imports m) hmem)
  | @importName i h =>
      have hmem := List.mem_map_of_mem (f := Import.requirement) (Array.mem_toList_iff.mpr h)
      exact (List.infix_append' _ _ _).trans (infix_of_mem_entries (payload_imports m) hmem)
  | @exportName e h =>
      have hentry := infix_of_mem_entries (payload_exports m) (Array.mem_toList_iff.mpr h)
      rw [Export.toBytes_eq] at hentry
      exact (List.prefix_append _ _).isInfix.trans hentry
  | @customName c h =>
      have hframe := infix_of_mem_frames (mem_frames_of_custom h)
      rw [CustomSection.toBytes_eq] at hframe
      exact (List.infix_append' _ _ _).trans hframe
  | @segment s h =>
      have hentry := infix_of_mem_entries (payload_data m) (Array.mem_toList_iff.mpr h)
      rw [DataSegment.toBytes_eq] at hentry
      exact ((List.suffix_append _ _).trans (List.suffix_append _ _)).isInfix.trans hentry

/-! ### Lengths that are read and lengths that are not -/

/-- The length of a run reads back as what it is if it has 32 bits, and as an error otherwise. -/
theorem decodeUnsigned_sizedBytes (run behind : Bytes) :
    Leb128.decodeUnsigned 32 (sizedBytes run ++ behind)
      = if run.length < 2 ^ 32 then .ok (run.length, (Leb128.unsigned run.length).length)
        else .error (if (Leb128.unsigned run.length).length ≤ 5 then .excessBits .u32
          else .overlong .u32 5) := by
  rw [sizedBytes, List.append_assoc]
  by_cases hshort : run.length < 2 ^ 32
  · rw [if_pos hshort]
    exact Leb128.decodeUnsigned_unsigned one_le_indexBits hshort _
  · rw [if_neg hshort]
    exact Leb128.decodeUnsigned_unsigned_of_ge one_le_indexBits (Nat.not_lt.mp hshort) _

/-- Lengths in the bytes of a module, whatever was declared. What is written behind its length
stands there like this. A reader at 32 bits takes the length for what it is if it is below
`2 ^ 32`, and refuses it otherwise. No declaration is refused to prevent that: the only limit that
one can exceed is the number of locals of a function. -/
theorem lengths_serialize (ds : List Decl) :
    (∀ run, (empty.run ds).Sized run → ∃ before behind,
      (empty.run ds).serialize = before ++ (sizedBytes run ++ behind) ∧
      Leb128.decodeUnsigned 32 (sizedBytes run ++ behind)
        = if run.length < 2 ^ 32 then .ok (run.length, (Leb128.unsigned run.length).length)
          else .error (if (Leb128.unsigned run.length).length ≤ 5 then .excessBits .u32
            else .overlong .u32 5)) ∧
    ∀ d, (∃ text, (empty.run ds).declare d = .error (.limitExceeded text)) ↔
      (empty.run ds).TooManyLocals d := by
  refine ⟨?_, limitExceeded_iff _⟩
  intro run hrun
  obtain ⟨before, behind, hbytes⟩ := hrun.infix
  refine ⟨before, behind, ?_, decodeUnsigned_sizedBytes run behind⟩
  rw [← hbytes, List.append_assoc]

/-- A name of `count` letters, each of them one byte. -/
def letters (count : Nat) : String :=
  String.ofList (List.replicate count 'a')

/-- A text of letters has a byte for each letter. -/
theorem length_utf8_letters (count : Nat) : (Bytes.utf8 (letters count)).length = count := by
  have hascii : ∀ c ∈ List.replicate count 'a', c.toNat < 128 := by
    intro c hc
    rw [List.eq_of_mem_replicate hc]
    decide
  rw [letters, Bytes.utf8_ofList_of_ascii hascii, List.length_map, List.length_replicate]

/-- A function can be imported into the empty module under any name. -/
theorem declare_import_empty (scope name : String) (type : FuncType) :
    empty.declare (.importEntity scope name (.func type))
      = .ok ((empty.pushImport scope name (.func type)).map .index) :=
  rfl

/-- A function is imported under a name of `2 ^ 32` bytes. The import is accepted, the name stands
in the bytes of the module behind its length, and the length cannot be read. -/
theorem longName_not_framed :
    ∃ a before behind,
      empty.declare (.importEntity "env" (letters (2 ^ 32)) (.func .empty)) = .ok a ∧
      (Bytes.utf8 (letters (2 ^ 32))).length = 2 ^ 32 ∧
      a.module.Sized (Bytes.utf8 (letters (2 ^ 32))) ∧
      a.module.serialize = before ++ (nameBytes (letters (2 ^ 32)) ++ behind) ∧
      Leb128.decodeUnsigned 32 (nameBytes (letters (2 ^ 32)) ++ behind)
        = .error (.excessBits .u32) := by
  have hlength := length_utf8_letters (2 ^ 32)
  generalize letters (2 ^ 32) = name at hlength ⊢
  have himports : (empty.pushImport "env" name (.func .empty)).module.imports
      = empty.imports.push ⟨"env", name, 0, (registerType empty.types (.func .empty)).1⟩ := rfl
  have hsized : (empty.pushImport "env" name (.func .empty)).module.Sized (Bytes.utf8 name) :=
    .importName (himports ▸ Array.mem_push_self)
  obtain ⟨before, behind, hbytes⟩ := hsized.infix
  refine ⟨_, before, behind, declare_import_empty "env" name .empty, hlength, hsized, ?_, ?_⟩
  · rw [← List.append_assoc]
    exact hbytes.symm
  · -- Five bytes are enough for numbers below `2 ^ 35`, so it is the last one that does not fit.
    have hfive : (Leb128.unsigned (2 ^ 32)).length ≤ 5 :=
      Leb128.length_unsigned_le (by decide) (by decide)
    rw [nameBytes, decodeUnsigned_sizedBytes, hlength, if_neg (Nat.lt_irrefl _), if_pos hfive]

end Module

end WasmAssembly
