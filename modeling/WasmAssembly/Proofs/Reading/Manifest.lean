import WasmAssembly.Manifest
import WasmAssembly.Proofs.Reading.Recovery

/-!
# `WasmAssembly.Proofs.Reading.Manifest`: the boundary read off the bytes

`Contents.manifest` computes a manifest from the sections alone: imports are counted by kind, and
the signature of a function is the entry of the type section at its type index. `manifest_serialize`
says that it is the manifest of the module, whose indices and type lookups come from elsewhere.
-/

set_option autoImplicit false

namespace WasmAssembly

/-- The signature of an entity, if it is a function. -/
def ExternType.signature? : ExternType FuncType → Option FuncType
  | .func type => some type
  | .table _ | .memory _ | .global _ => none

namespace Contents

/-- The signature of an imported entity, if it is a function: an entry of the type section. -/
def signature? (c : Contents) : ExternType Nat → Option FuncType
  | .func typeIndex => c.types[typeIndex]?
  | .table _ | .memory _ | .global _ => none

/-- The number of entries of a kind before a position of the import section. -/
def importsBefore (c : Contents) (pos : Nat) (kind : ExternalKind) : Nat :=
  (c.imports.take pos).countP (·.type.kind = kind)

/-- The boundary that the sections describe. -/
def manifest (c : Contents) : Manifest where
  imports := c.imports.mapIdx fun pos r =>
    ⟨r.scope, r.name, r.type.kind, UInt32.ofNat (c.importsBefore pos r.type.kind),
      c.signature? r.type⟩
  exports := c.exports.map fun e => ⟨e.name, e.kind, UInt32.ofNat e.index⟩
  start := c.start.map UInt32.ofNat

end Contents

namespace Module

variable {m : Module}

/-- A function has the same signature in the contents as in the module. -/
theorem signature?_contents (m : Module) (type : ExternType Nat) :
    m.contents.signature? type = m.signature? type := by
  cases type with
  | func typeIndex => exact (TypeTable.get?_eq_getElem? typeIndex).symm
  | table _ | memory _ | global _ => rfl

/-- Entries of the import section are counted like imports. -/
theorem importsBefore_contents (m : Module) (pos : Nat) (kind : ExternalKind) :
    m.contents.importsBefore pos kind = (m.imports.toList.take pos).countP (·.kind = kind) := by
  show (List.take pos (m.imports.toList.map Import.requirement)).countP _ = _
  rw [← List.map_take, List.countP_map]
  rfl

/-- The stored index of an import is what counting the entries gives. -/
theorem importsBefore_eq_index (h : m.WellFormed) {pos : Nat} {i : Import}
    (hi : m.imports[pos]? = some i) : m.contents.importsBefore pos i.kind = i.index := by
  rw [importsBefore_contents, h.importIndices pos i hi]

/-- The number of imports of a kind before any import has 32 bits. -/
theorem importsBefore_lt (h : m.WellFormed) (hfits : m.Fits) (pos : Nat) (kind : ExternalKind) :
    m.contents.importsBefore pos kind < UInt32.size := by
  have hall : m.contents.importsBefore pos kind ≤ m.imported.of kind := by
    rw [importsBefore_contents, h.importCounts]
    exact (List.take_sublist pos _).countP_le
  have hcount : m.imported.of kind + m.definedCount kind < UInt32.size := hfits.counts kind
  omega

/-- The manifest of the contents of a module is that of the module. -/
theorem manifest_contents (h : m.WellFormed) : m.contents.manifest = m.manifest := by
  -- Exports and start are taken over as they are; only imports are computed in two ways.
  have himports : m.contents.manifest.imports = m.manifest.imports := by
    refine List.ext_getElem? ?_
    intro pos
    show ((m.imports.toList.map Import.requirement).mapIdx _)[pos]? = (m.imports.toList.map _)[pos]?
    rw [List.getElem?_mapIdx, List.getElem?_map, List.getElem?_map, Option.map_map]
    refine Option.map_congr ?_
    intro i hi
    rw [Array.getElem?_toList] at hi
    have hindex := importsBefore_eq_index h hi
    show ImportEntry.mk i.scope i.name i.kind (UInt32.ofNat (m.contents.importsBefore pos i.kind))
      (m.contents.signature? i.type) = _
    rw [hindex, signature?_contents]
  show Manifest.mk m.contents.manifest.imports _ _ = Manifest.mk m.manifest.imports _ _
  rw [himports]
  rfl

/-- An entity that is spelled out has its kind and its signature. -/
theorem signature?_of_spellOut {type : ExternType Nat} {e : ExternType FuncType}
    (h : m.spellOut type = some e) : m.signature? type = e.signature? := by
  cases type with
  | func typeIndex =>
      obtain ⟨signature, hget, rfl⟩ := Option.map_eq_some_iff.mp h
      exact hget
  | table _ | memory _ | global _ =>
      rw [← Option.some.inj h]
      rfl

/-- A manifest lists the imports that were added, with the signatures that were given. -/
theorem imports_manifest {items : List Item} (hadmits : empty.AdmitsAll items) :
    (empty.addAll items).manifest.imports.map (fun e => (e.scope, e.name, e.kind, e.signature))
      = (items.filterMap Item.imported?).map
          fun (scope, name, type) => (scope, name, type.kind, type.signature?) := by
  refine List.ext_getElem? ?_
  intro pos
  -- The import at a position and the one that was given there are the same, spelled out.
  have hspelled := congrArg (·[pos]?)
    (imports_addAll wellFormed_empty.types hadmits (Extends.refl _))
  change ((empty.addAll items).imports.toList.map _)[pos]? = (List.map _ _)[pos]? at hspelled
  show ((((empty.addAll items).imports.toList.map _).map _))[pos]? = _
  rw [List.getElem?_map, List.getElem?_map] at hspelled
  rw [List.getElem?_map, List.getElem?_map, List.getElem?_map]
  cases hi : (empty.addAll items).imports.toList[pos]? with
  | none =>
      rw [hi, Option.map_none, eq_comm, Option.map_eq_none_iff] at hspelled
      rw [hspelled]
      rfl
  | some i =>
      rw [hi, Option.map_some, eq_comm, Option.map_eq_some_iff] at hspelled
      obtain ⟨⟨scope, name, type⟩, hgiven, heq⟩ := hspelled
      obtain ⟨hscope, hrest⟩ := Prod.mk.inj heq
      obtain ⟨hname, htype⟩ := Prod.mk.inj hrest
      have hkind := kind_of_spellOut htype.symm
      have hsignature := signature?_of_spellOut htype.symm
      rw [hgiven, Option.map_some, Option.map_some, Option.map_some]
      show some (i.scope, i.name, i.type.kind, (empty.addAll items).signature? i.type) = _
      rw [hkind, hsignature, ← hscope, ← hname]

/-- The index of an import is counted by the entries of the import section: it has 32 bits. -/
theorem index_manifest (h : m.WellFormed) (hfits : m.Fits) {pos : Nat} {e : ImportEntry}
    (he : m.manifest.imports[pos]? = some e) :
    e.index.toNat = m.contents.importsBefore pos e.kind := by
  rw [← manifest_contents h] at he
  change (m.contents.imports.mapIdx _)[pos]? = some e at he
  rw [List.getElem?_mapIdx, Option.map_eq_some_iff] at he
  obtain ⟨r, -, rfl⟩ := he
  exact UInt32.toNat_ofNat_of_lt' (importsBefore_lt h hfits pos r.type.kind)

/-- Nothing of an export is lost when its index is taken as a word. -/
theorem exports_manifest (h : m.WellFormed) (hfits : m.Fits) :
    m.manifest.exports.map (fun e => (⟨e.name, e.kind, e.index.toNat⟩ : Export))
      = m.contents.exports := by
  show (m.exports.toList.map _).map _ = m.exports.toList
  rw [List.map_map]
  refine (List.map_congr_left ?_).trans (List.map_id _)
  intro e he
  show (⟨e.name, e.kind, (UInt32.ofNat e.index).toNat⟩ : Export) = e
  rw [UInt32.toNat_ofNat_of_lt' (export_fits h hfits he)]

/-- The start function of the manifest is that of the contents. -/
theorem start_manifest (h : m.WellFormed) (hfits : m.Fits) :
    m.manifest.start.map UInt32.toNat = m.contents.start := by
  show (m.start.map _).map _ = m.start
  rw [Option.map_map]
  refine (Option.map_congr ?_).trans Option.map_id'
  intro index hindex
  exact UInt32.toNat_ofNat_of_lt' (start_fits h hfits hindex)

/-- The manifest agrees with the bytes. After every run of declarations that leaves a module whose
lengths and indices have 32 bits, the manifest that is computed from the bytes is the one that is
computed from the module. The index of an import is the number of entries of its kind before it, and
its signature is the one that was given; exports are the entries of the export section, and the
start is there if the start section is. -/
theorem manifest_serialize (ds : List Decl) (hfits : (empty.run ds).Fits) :
    ∃ c, Contents.read? (empty.run ds).serialize = some c ∧
      c.manifest = (empty.run ds).manifest ∧
      (∀ pos e, (empty.run ds).manifest.imports[pos]? = some e →
        e.index.toNat = c.importsBefore pos e.kind) ∧
      (empty.run ds).manifest.imports.map (fun e => (e.scope, e.name, e.kind, e.signature))
        = ((empty.trace ds).filterMap Item.imported?).map
            (fun (scope, name, type) => (scope, name, type.kind, type.signature?)) ∧
      (empty.run ds).manifest.exports.map (fun e => (⟨e.name, e.kind, e.index.toNat⟩ : Export))
        = c.exports ∧
      (empty.run ds).manifest.start.map UInt32.toNat = c.start := by
  have h := wellFormed_empty.run ds
  obtain ⟨hadmits, hrun⟩ := run_eq_addAll wellFormed_empty.types ds
  refine ⟨_, read?_of_fits h hfits, manifest_contents h, ?_, ?_, ?_, ?_⟩
  · intro pos e he
    exact index_manifest h hfits he
  · rw [hrun]
    exact imports_manifest hadmits
  · exact exports_manifest h hfits
  · exact start_manifest h hfits

/-- Two imported functions of one signature with a global between them, and a start function that is
exported. -/
theorem manifest_serialize_of_run :
    ∃ c, Contents.read? (empty.run [.importEntity "env" "f" (.func ⟨[.i32], []⟩),
        .importEntity "env" "base" (.global ⟨.i32, false⟩),
        .importEntity "env" "g" (.func ⟨[.i32], []⟩),
        .function .empty [] [] ⟨some "main", true⟩]).serialize = some c ∧
      c.manifest =
        { imports := [⟨"env", "f", .func, 0, some ⟨[.i32], []⟩⟩, ⟨"env", "base", .global, 0, none⟩,
            ⟨"env", "g", .func, 1, some ⟨[.i32], []⟩⟩]
          exports := [⟨"main", .func, 2⟩]
          start := some 2 } := by
  obtain ⟨c, hread, hmanifest, -⟩ := manifest_serialize
    [.importEntity "env" "f" (.func ⟨[.i32], []⟩),
      .importEntity "env" "base" (.global ⟨.i32, false⟩),
      .importEntity "env" "g" (.func ⟨[.i32], []⟩), .function .empty [] [] ⟨some "main", true⟩]
    (by decide +kernel)
  refine ⟨c, hread, hmanifest.trans ?_⟩
  decide +kernel

end Module

end WasmAssembly
