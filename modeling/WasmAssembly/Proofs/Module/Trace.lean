import WasmAssembly.Proofs.Module.Indices

/-!
# `WasmAssembly.Proofs.Module.Trace`: a module holds what was added to it

The lists of a module are what has been added, in order, and nothing else. For most of them this is
one statement about a list that grows with one kind of item (`toList_addAll`). Imports and functions
have signatures, which the module holds by type index; they are found there as they were given.
-/

set_option autoImplicit false

namespace WasmAssembly

namespace Item

/-- Where an imported entity comes from and what it is. -/
def imported? : Item → Option (String × String × ExternType FuncType)
  | .imported scope name type => some (scope, name, type)
  | _ => none

/-- A function as the module holds it: its body has the end marker. -/
def function? : Item → Option Function
  | .function _ typeIndex locals body => some ⟨typeIndex, locals, body ++ [endMarker]⟩
  | _ => none

/-- The table that an item defines, if it defines one. -/
def table? : Item → Option TableType
  | .table type => some type
  | _ => none

/-- The memory that an item defines, if it defines one. -/
def memory? : Item → Option Limits
  | .memory limits => some limits
  | _ => none

/-- The global that an item defines, if it defines one. -/
def global? : Item → Option Global
  | .global type init => some ⟨type, init⟩
  | _ => none

/-- The export that an item is, if it is one. -/
def export? : Item → Option Export
  | .exported name kind index => some ⟨name, kind, index⟩
  | _ => none

/-- The start that an item sets, if it sets one. -/
def start? : Item → Option Nat
  | .start index => some index
  | _ => none

/-- The data segment that an item is, if it is one. -/
def data? : Item → Option DataSegment
  | .data offset bytes => some ⟨offset, bytes⟩
  | _ => none

/-- The custom section that an item is, if it is one. -/
def custom? : Item → Option CustomSection
  | .custom name bytes => some ⟨name, bytes⟩
  | _ => none

end Item

namespace Module

/-! ### Lists that grow with one kind of item -/

/-- A list that each item makes longer by what it is of that kind consists of these in the end. -/
theorem toList_addAll {α : Type} {list : Module → Array α} {part? : Item → Option α}
    (hadd : ∀ m item, (list (m.add item)).toList = (list m).toList ++ (part? item).toList)
    (m : Module) (items : List Item) :
    (list (m.addAll items)).toList = (list m).toList ++ items.filterMap part? := by
  induction items generalizing m with
  | nil => exact (List.append_nil _).symm
  | cons item items ih =>
      rw [addAll_cons, ih, hadd, List.append_assoc]
      cases hpart : part? item with
      | none => rw [List.filterMap_cons_none hpart, Option.toList_none, List.nil_append]
      | some part => rw [List.filterMap_cons_some hpart, Option.toList_some, List.singleton_append]

/-- An addition appends its function to the functions. -/
theorem functions_add (m : Module) (item : Item) :
    (m.add item).functions.toList = m.functions.toList ++ item.function?.toList := by
  cases item with
  | function _ typeIndex locals body => exact Array.toList_push
  | _ => exact (List.append_nil _).symm

/-- An addition appends its table to the tables. -/
theorem tables_add (m : Module) (item : Item) :
    (m.add item).tables.toList = m.tables.toList ++ item.table?.toList := by
  cases item with
  | table type => exact Array.toList_push
  | _ => exact (List.append_nil _).symm

/-- An addition appends its memory to the memories. -/
theorem memories_add (m : Module) (item : Item) :
    (m.add item).memories.toList = m.memories.toList ++ item.memory?.toList := by
  cases item with
  | memory limits => exact Array.toList_push
  | _ => exact (List.append_nil _).symm

/-- An addition appends its global to the globals. -/
theorem globals_add (m : Module) (item : Item) :
    (m.add item).globals.toList = m.globals.toList ++ item.global?.toList := by
  cases item with
  | global type init => exact Array.toList_push
  | _ => exact (List.append_nil _).symm

/-- An addition appends its export to the exports. -/
theorem exports_add (m : Module) (item : Item) :
    (m.add item).exports.toList = m.exports.toList ++ item.export?.toList := by
  cases item with
  | exported name kind index => exact Array.toList_push
  | _ => exact (List.append_nil _).symm

/-- An addition appends its data segment to the data. -/
theorem data_add (m : Module) (item : Item) :
    (m.add item).data.toList = m.data.toList ++ item.data?.toList := by
  cases item with
  | data offset bytes => exact Array.toList_push
  | _ => exact (List.append_nil _).symm

/-- An addition appends its custom section to the custom sections. -/
theorem customs_add (m : Module) (item : Item) :
    (m.add item).customs.toList = m.customs.toList ++ item.custom?.toList := by
  cases item with
  | custom name bytes => exact Array.toList_push
  | _ => exact (List.append_nil _).symm

/-- The start is what was added as the start, which is only possible once. -/
theorem start_addAll {m : Module} {items : List Item} (hadmits : m.AdmitsAll items) :
    (m.addAll items).start.toList = m.start.toList ++ items.filterMap Item.start? := by
  induction items generalizing m with
  | nil => exact (List.append_nil _).symm
  | cons item items ih =>
      rw [addAll_cons, ih hadmits.2]
      cases item with
      | start index =>
          have hnone : m.start = none := hadmits.1.1
          rw [hnone]
          rfl
      | _ => rfl

/-! ### Signatures -/

/-- An import as it was given: where it comes from, and what it is, spelled out. -/
def spelledImport (m : Module) (i : Import) : String × String × Option (ExternType FuncType) :=
  (i.scope, i.name, m.spellOut i.type)

/-- An import is found as it was given in any module that extends the one in which it is made. -/
theorem imports_add {m n : Module} (hm : m.types.Lawful) {item : Item} (hadmits : m.Admits item)
    (hn : (m.add item).Extends n) :
    (m.add item).imports.toList.map n.spelledImport
      = m.imports.toList.map n.spelledImport ++
        item.imported?.toList.map fun (scope, name, type) => (scope, name, some type) := by
  cases item with
  | imported scope name type =>
      obtain ⟨stored, hstored, hspell⟩ := spellOut_stored (e := type) hm hadmits rfl
      have hspelled := hn.spellOut hspell
      rw [← Option.some.inj hstored] at hspelled
      rw [imports_add_imported, Array.toList_push, List.map_append, List.map_singleton,
        spelledImport, hspelled]
      rfl
  | _ => exact (List.append_nil _).symm

/-- Imports are those of before and those that are added, with the signatures that a later module
has for them. -/
theorem imports_addAll {m n : Module} (hm : m.types.Lawful) {items : List Item}
    (hadmits : m.AdmitsAll items) (hn : (m.addAll items).Extends n) :
    (m.addAll items).imports.toList.map n.spelledImport
      = m.imports.toList.map n.spelledImport ++
        (items.filterMap Item.imported?).map
          fun (scope, name, type) => (scope, name, some type) := by
  -- Signatures are looked up in `n` all along, as the table is longer at each step.
  induction items generalizing m with
  | nil => exact (List.append_nil _).symm
  | cons item items ih =>
      have hrest := (Extends.addAll hadmits.2).trans hn
      rw [addAll_cons, ih (types_lawful_add hm item) hadmits.2 hn, imports_add hm hadmits.1 hrest,
        List.append_assoc, ← List.map_append]
      cases himported : item.imported? with
      | none => rw [List.filterMap_cons_none himported, Option.toList_none, List.nil_append]
      | some import_ =>
          rw [List.filterMap_cons_some himported, Option.toList_some, List.singleton_append]

/-- The signature of each function is at its type index. -/
theorem get?_of_mem_items {m : Module} {items : List Item} (hadmits : m.AdmitsAll items)
    {type : FuncType} {typeIndex : Nat} {locals : List LocalRun} {body : Bytes}
    (hmem : .function type typeIndex locals body ∈ items) :
    (m.addAll items).types.get? typeIndex = some type := by
  obtain ⟨before, after, rfl⟩ := List.append_of_mem hmem
  obtain ⟨-, hitem, hafter⟩ := admitsAll_append.mp hadmits
  rw [addAll_append, addAll_cons]
  exact (Extends.addAll hafter).get?_types hitem.1

end Module

end WasmAssembly
