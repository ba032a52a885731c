import WasmAssembly.Proofs.Module.Trace
import WasmAssembly.Proofs.Reading.Contents

/-!
# `WasmAssembly.Proofs.Reading.Recovery`: declarations read back from bytes

`read_serialize` joins the two halves: a reader finds in the bytes of a module what the module
holds (`read?_of_fits`), and the module holds what was declared. `Contents.Records` is the second
half, said of the contents alone: list by list, they are what a run of declarations added.
-/

set_option autoImplicit false

namespace WasmAssembly

namespace Contents

/-- An imported entity with its signature spelled out, if there is one at its type index. -/
def spellOut (c : Contents) : ExternType Nat → Option (ExternType FuncType)
  | .func typeIndex => c.types[typeIndex]?.map .func
  | .table type => some (.table type)
  | .memory limits => some (.memory limits)
  | .global type => some (.global type)

/-- The contents are what was added. -/
structure Records (c : Contents) (log : List Item) : Prop where
  /-- Imports have their namespace, name and type, and functions the signature that was given. -/
  imports : c.imports.map (fun r => (r.scope, r.name, c.spellOut r.type))
    = (log.filterMap Item.imported?).map fun (scope, name, type) => (scope, name, some type)
  /-- Functions have the locals and the body that were given, with one end marker more. -/
  functions : c.functions = log.filterMap Item.function?
  /-- The type index of a function is that of the signature that was given. -/
  signatures : ∀ type typeIndex locals body, .function type typeIndex locals body ∈ log →
    c.types[typeIndex]? = some type
  tables : c.tables = log.filterMap Item.table?
  memories : c.memories = log.filterMap Item.memory?
  /-- Globals have their type and their initializer. -/
  globals : c.globals = log.filterMap Item.global?
  /-- Exports are there whether they were declared or came with what they export. -/
  exports : c.exports = log.filterMap Item.export?
  start : c.start.toList = log.filterMap Item.start?
  dataCount : c.dataCount = if c.data = [] then none else some c.data.length
  data : c.data = log.filterMap Item.data?
  customs : c.customs = log.filterMap Item.custom?

end Contents

namespace Module

/-- An entity is spelled out in the same way by the contents as by the module. -/
theorem spellOut_contents (m : Module) (type : ExternType Nat) :
    m.contents.spellOut type = m.spellOut type := by
  cases type with
  | func typeIndex =>
      show (m.types.toList[typeIndex]?).map _ = (m.types.get? typeIndex).map _
      rw [TypeTable.get?_eq_getElem?]
  | table _ | memory _ | global _ => rfl

/-- A list of a module that starts empty is what was added to it. -/
theorem toList_addAll_empty {α : Type} {list : Module → Array α} {part? : Item → Option α}
    (hadd : ∀ m item, (list (m.add item)).toList = (list m).toList ++ (part? item).toList)
    (hempty : list empty = #[]) (items : List Item) :
    (list (empty.addAll items)).toList = items.filterMap part? := by
  rw [toList_addAll hadd, hempty]
  exact List.nil_append _

/-- What is to be said of a module is what was added to it. -/
theorem records_addAll {items : List Item} (hadmits : empty.AdmitsAll items) :
    (empty.addAll items).contents.Records items where
  imports := by
    -- Nothing is imported before the items.
    refine Eq.trans ?_ (imports_addAll wellFormed_empty.types hadmits (Extends.refl _))
    show ((empty.addAll items).imports.toList.map Import.requirement).map _ = _
    rw [List.map_map]
    refine List.map_congr_left ?_
    intro i _
    show (i.scope, i.name, (empty.addAll items).contents.spellOut i.type) = _
    rw [spellOut_contents]
    rfl
  functions := toList_addAll_empty functions_add rfl items
  signatures type typeIndex locals body hmem := by
    show (empty.addAll items).types.toList[typeIndex]? = some type
    rw [← TypeTable.get?_eq_getElem?]
    exact get?_of_mem_items hadmits hmem
  tables := toList_addAll_empty tables_add rfl items
  memories := toList_addAll_empty memories_add rfl items
  globals := toList_addAll_empty globals_add rfl items
  exports := toList_addAll_empty exports_add rfl items
  start := start_addAll hadmits
  dataCount := by
    show (if (empty.addAll items).data.size = 0 then none else some (empty.addAll items).data.size)
      = if (empty.addAll items).data.toList = [] then none
        else some (empty.addAll items).data.toList.length
    rw [← Array.length_toList]
    simp only [List.length_eq_zero_iff]
  data := toList_addAll_empty data_add rfl items
  customs := toList_addAll_empty customs_add rfl items

/-- The bytes of a module are read back as exactly what was declared, for every run of declarations,
accepted or refused, that leaves a module whose lengths and indices have 32 bits. -/
theorem read_serialize (ds : List Decl) (hfits : (empty.run ds).Fits) :
    Contents.read? (empty.run ds).serialize = some (empty.run ds).contents ∧
      (empty.run ds).contents.Records (empty.trace ds) := by
  obtain ⟨hadmits, hrun⟩ := run_eq_addAll wellFormed_empty.types ds
  refine ⟨read?_of_fits (wellFormed_empty.run ds) hfits, ?_⟩
  rw [hrun]
  exact records_addAll hadmits

/-- An import and a function of one signature, a memory, a second one that is refused, a float that
is no number, the largest offset and a custom section. -/
theorem read_serialize_of_run :
    Contents.read? (empty.run [.importEntity "env" "f" (.func ⟨[.i32], []⟩),
      .function ⟨[.i32], []⟩ [⟨3, .i64⟩] [0x01] ⟨some "main", false⟩, .memory ⟨1, some 2⟩ none,
      .memory ⟨1, none⟩ none, .global ⟨.f32, true⟩ (.f32 0x7fa00001) none,
      .data 4294967295 [1, 2], .custom "x" [7]]).serialize
    = some
      { types := [⟨[.i32], []⟩]
        imports := [⟨"env", "f", .func 0⟩]
        functions := [⟨0, [⟨3, .i64⟩], [0x01, 0x0b]⟩]
        tables := []
        memories := [⟨1, some 2⟩]
        globals := [⟨⟨.f32, true⟩, .f32 0x7fa00001⟩]
        exports := [⟨"main", .func, 1⟩]
        start := none
        dataCount := some 1
        data := [⟨4294967295, [1, 2]⟩]
        customs := [⟨"x", [7]⟩] } := by
  rw [(read_serialize _ (by decide +kernel)).1]
  decide +kernel

end Module

end WasmAssembly
