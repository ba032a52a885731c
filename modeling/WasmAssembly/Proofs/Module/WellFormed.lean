import WasmAssembly.Proofs.Module.Growth
import WasmAssembly.Proofs.Module.Session

/-!
# `WasmAssembly.Proofs.Module.WellFormed`: the rules of the format, at all times

`Module.WellFormed` adds to the rules of the format (`Module.Admissible`) what a module keeps
account of while it is put together: imports are numbered by kind, signatures are told apart, bodies
have their end marker, and the start function is one that the module defines.

The empty module is well formed and every addition keeps it so, one lemma for each part. So is
every module that a run of declarations leaves, whether they were accepted or refused.
-/

set_option autoImplicit false

namespace WasmAssembly

namespace Module

/-- The declarations of a module keep the rules of the format, and the module keeps account of
them: its imports are numbered, and its signatures are told apart. -/
structure WellFormed (m : Module) : Prop extends Admissible m where
  /-- The number of imports of each kind is known. -/
  importCounts : ∀ kind, m.imported.of kind = m.imports.toList.countP (·.kind = kind)
  /-- The index of an import is the number of imports of its kind before it. -/
  importIndices : ∀ pos i, m.imports[pos]? = some i →
    i.index = (m.imports.toList.take pos).countP (·.kind = i.kind)
  /-- The body of a function has its end marker. -/
  functionBodies : ∀ f ∈ m.functions, ∃ body, f.body = body ++ [0x0b]
  /-- The start function is one that the module defines, without parameters and results. -/
  startFunction : ∀ index, m.start = some index → m.CanStartAt index
  /-- The table of signatures is lawful. -/
  types : m.types.Lawful

/-- A function that can be the start is found at its index, without parameters and results. -/
theorem CanStartAt.resolve_eq {m : Module} {index : Nat} (h : m.CanStartAt index) :
    m.resolve .func index = some (.func .empty) := by
  obtain ⟨pos, f, rfl, hf, htype⟩ := h
  rw [resolve_defined hf, htype, Option.map_some]

/-- Where nothing is declared, nothing breaks a rule. -/
theorem wellFormed_empty : Module.empty.WellFormed where
  importCounts kind := ImportCounts.of_zero kind
  importIndices _ _ h := absurd h nofun
  importTypes i h := absurd h (Array.not_mem_empty i)
  importLimits i h := absurd h (Array.not_mem_empty i)
  functionTypes f h := absurd h (Array.not_mem_empty f)
  functionLocals f h := absurd h (Array.not_mem_empty f)
  functionBodies f h := absurd h (Array.not_mem_empty f)
  tableLimits t h := absurd h (Array.not_mem_empty t)
  memoryLimits l h := absurd h (Array.not_mem_empty l)
  oneMemory := Nat.zero_le 1
  globalInits g h := absurd h (Array.not_mem_empty g)
  exportNames := List.nodup_nil
  exportIndices e h := absurd h (Array.not_mem_empty e)
  startSignature _ h := absurd h nofun
  startFunction _ h := absurd h nofun
  dataMemory h := absurd rfl h
  types := TypeTable.lawful_empty

namespace WellFormed

variable {m : Module} {item : Item}

/-! ### Imports -/

/-- An addition keeps account of the numbers of imports. -/
theorem importCounts_add (h : m.WellFormed) (kind : ExternalKind) :
    (m.add item).imported.of kind = (m.add item).imports.toList.countP (·.kind = kind) := by
  cases item with
  | imported scope name type =>
      rw [imported_add_imported, imports_add_imported, ImportCounts.of_increment,
        Array.toList_push, List.countP_append, List.countP_singleton, ← h.importCounts, Import.kind,
        kind_registerType]
      by_cases hkind : type.kind = kind
      · rw [if_pos hkind, if_pos (decide_eq_true hkind)]
      · rw [if_neg hkind, if_neg (by simpa using hkind), Nat.add_zero]
  | _ => exact h.importCounts kind

/-- An addition leaves imports their indices and gives a new one the next index of its kind. -/
theorem importIndices_add (h : m.WellFormed) {pos : Nat} {i : Import}
    (hi : (m.add item).imports[pos]? = some i) :
    i.index = ((m.add item).imports.toList.take pos).countP (·.kind = i.kind) := by
  cases item with
  | imported scope name type =>
      rw [imports_add_imported, Array.getElem?_push] at hi
      rw [imports_add_imported, Array.toList_push]
      by_cases hpos : pos = m.imports.size
      · -- The new import is the last one: all others are before it.
        rw [if_pos hpos] at hi
        rw [← Option.some.inj hi, hpos, ← Array.length_toList, List.take_left, Import.kind,
          kind_registerType, h.importCounts]
      · -- An earlier import has the same imports before it as it had.
        rw [if_neg hpos] at hi
        have hle : pos ≤ m.imports.toList.length :=
          Nat.le_of_lt (Array.getElem?_eq_some_iff.mp hi).1
        rw [List.take_append_of_le_length hle]
        exact h.importIndices pos i hi
  | _ => exact h.importIndices pos i hi

/-- An addition keeps the types of imported functions in the table. -/
theorem importTypes_add (h : m.WellFormed) {i : Import} (hi : i ∈ (m.add item).imports)
    {typeIndex : Nat} (htype : i.type = .func typeIndex) :
    typeIndex < (m.add item).types.size := by
  obtain hold | ⟨scope, name, type, rfl, rfl⟩ := mem_imports_add hi
  · exact Nat.lt_of_lt_of_le (h.importTypes i hold typeIndex htype) (size_types_le_add m item)
  · exact lt_size_registerType h.types htype

/-- An addition keeps the sizes of imports admissible. -/
theorem importLimits_add (h : m.WellFormed) (hadmits : m.Admits item) {i : Import}
    (hi : i ∈ (m.add item).imports) : i.type.LimitsOk := by
  obtain hold | ⟨scope, name, type, rfl, rfl⟩ := mem_imports_add hi
  · exact h.importLimits i hold
  · exact (limitsOk_registerType m.types type).mpr hadmits.1

/-! ### Functions -/

/-- An addition keeps the types of functions in the table. -/
theorem functionTypes_add (h : m.WellFormed) (hadmits : m.Admits item) {f : Function}
    (hf : f ∈ (m.add item).functions) : f.typeIndex < (m.add item).types.size := by
  refine Nat.lt_of_lt_of_le ?_ (size_types_le_add m item)
  obtain hold | ⟨type', typeIndex, locals, body, rfl, rfl⟩ := mem_functions_add hf
  · exact h.functionTypes f hold
  · exact TypeTable.lt_size_of_get? hadmits.1

/-- An addition keeps the locals of functions within what can be numbered. -/
theorem functionLocals_add (h : m.WellFormed) (hadmits : m.Admits item) {f : Function}
    (hf : f ∈ (m.add item).functions) {type : FuncType}
    (htype : (m.add item).types.get? f.typeIndex = some type) :
    LocalsOk type f.locals := by
  obtain hold | ⟨type', typeIndex, locals, body, rfl, rfl⟩ := mem_functions_add hf
  · -- The signature was there before, so it is the one that was checked.
    have hbefore := TypeTable.get?_eq_some_of_lt (h.functionTypes f hold)
    rw [get?_types_add item hbefore] at htype
    exact h.functionLocals f hold type (hbefore.trans htype)
  · rw [get?_types_add _ hadmits.1] at htype
    rw [← Option.some.inj htype]
    exact hadmits.2

/-- An addition gives a function its end marker and leaves others theirs. -/
theorem functionBodies_add (h : m.WellFormed) {f : Function}
    (hf : f ∈ (m.add item).functions) : ∃ body, f.body = body ++ [0x0b] := by
  obtain hold | ⟨type', typeIndex, locals, body, rfl, rfl⟩ := mem_functions_add hf
  · exact h.functionBodies f hold
  · exact ⟨body, rfl⟩

/-! ### Tables, memories and globals -/

/-- An addition keeps the sizes of tables in order. -/
theorem tableLimits_add (h : m.WellFormed) (hadmits : m.Admits item) {t : TableType}
    (ht : t ∈ (m.add item).tables) : t.limits.Ordered := by
  obtain hold | rfl := mem_tables_add ht
  · exact h.tableLimits t hold
  · exact hadmits

/-- An addition keeps the sizes of memories in order and within what the format allows. -/
theorem memoryLimits_add (h : m.WellFormed) (hadmits : m.Admits item) {l : Limits}
    (hl : l ∈ (m.add item).memories) : l.Ordered ∧ l.AtMost 65536 := by
  obtain hold | rfl := mem_memories_add hl
  · exact h.memoryLimits l hold
  · exact hadmits.2

/-- An addition keeps the number of memories at one at most. -/
theorem oneMemory_add (h : m.WellFormed) (hadmits : m.Admits item) :
    (m.add item).count .memory ≤ 1 := by
  rw [count_add]
  by_cases hkind : item.kind? = some .memory
  · -- Both ways to get a memory, by import and by definition, ask for none to be there.
    have hnone : m.count .memory = 0 := by
      cases item with
      | imported scope name type => exact hadmits.2.2 (Option.some.inj hkind)
      | memory limits => exact hadmits.1
      | _ => exact absurd hkind nofun
    rw [if_pos hkind]
    omega
  · rw [if_neg hkind]
    exact h.oneMemory

/-- An addition keeps the initializers of globals in their types. -/
theorem globalInits_add (h : m.WellFormed) (hadmits : m.Admits item) {g : Global}
    (hg : g ∈ (m.add item).globals) : (m.add item).Initializes g.init g.type.valType := by
  obtain hold | rfl := mem_globals_add hg
  · exact (h.globalInits g hold).add item
  · -- The rule was kept before the global was there, so it does not refer to itself.
    exact Initializes.add hadmits _

/-! ### Exports, start and data -/

/-- An addition keeps export names apart. -/
theorem exportNames_add (h : m.WellFormed) (hadmits : m.Admits item) :
    ((m.add item).exports.toList.map (·.name)).Nodup := by
  cases item with
  | exported name kind index =>
      have hnew : name ∉ m.exports.toList.map (·.name) := by
        intro hmem
        obtain ⟨e, he, hname⟩ := List.mem_map.mp hmem
        exact hadmits.1 e (Array.mem_toList_iff.mp he) hname
      show ((m.exports.push _).toList.map _).Nodup
      rw [Array.toList_push, List.map_append, List.map_singleton, ← List.concat_eq_append]
      exact h.exportNames.concat hnew
  | _ => exact h.exportNames

/-- An addition keeps the indices of exports in range. -/
theorem exportIndices_add (h : m.WellFormed) (hadmits : m.Admits item) {e : Export}
    (he : e ∈ (m.add item).exports) : e.index < (m.add item).count e.kind := by
  refine Nat.lt_of_lt_of_le ?_ (count_le_count_add m item e.kind)
  obtain hold | rfl := mem_exports_add he
  · exact h.exportIndices e hold
  · exact hadmits.2

/-- An addition keeps the start function fit for it. -/
theorem startFunction_add (h : m.WellFormed) (hadmits : m.Admits item) {index : Nat}
    (hstart : (m.add item).start = some index) : (m.add item).CanStartAt index := by
  -- The start was set before or is set now; either way it could be set before the addition.
  refine CanStartAt.add ?_ hadmits
  cases item with
  | start new =>
      rw [← Option.some.inj hstart]
      exact hadmits.2
  | _ => exact h.startFunction index hstart

/-- An addition keeps a memory for data. -/
theorem dataMemory_add (h : m.WellFormed) (hadmits : m.Admits item)
    (hdata : (m.add item).data ≠ #[]) : 0 < (m.add item).count .memory := by
  refine Nat.lt_of_lt_of_le ?_ (count_le_count_add m item .memory)
  cases item with
  | data offset bytes => exact hadmits
  | _ => exact h.dataMemory hdata

/-! ### All rules -/

/-- Whatever is added in keeping with its rule, the module stays well formed. -/
theorem add (h : m.WellFormed) (hadmits : m.Admits item) : (m.add item).WellFormed where
  importCounts := h.importCounts_add
  importIndices _ _ hi := h.importIndices_add hi
  importTypes _ hi _ htype := h.importTypes_add hi htype
  importLimits _ hi := h.importLimits_add hadmits hi
  functionTypes _ hf := h.functionTypes_add hadmits hf
  functionLocals _ hf _ htype := h.functionLocals_add hadmits hf htype
  functionBodies _ hf := h.functionBodies_add hf
  tableLimits _ ht := h.tableLimits_add hadmits ht
  memoryLimits _ hl := h.memoryLimits_add hadmits hl
  oneMemory := h.oneMemory_add hadmits
  globalInits _ hg := h.globalInits_add hadmits hg
  exportNames := h.exportNames_add hadmits
  exportIndices _ he := h.exportIndices_add hadmits he
  startSignature _ hstart := (h.startFunction_add hadmits hstart).resolve_eq
  startFunction _ hstart := h.startFunction_add hadmits hstart
  dataMemory hdata := h.dataMemory_add hadmits hdata
  types := types_lawful_add h.types item

/-- Items that keep their rules one after the other keep a module well formed. -/
theorem addAll (h : m.WellFormed) {items : List Item} (hadmits : m.AdmitsAll items) :
    (m.addAll items).WellFormed :=
  addAll_induction (P := WellFormed) (fun _ _ hn hitem => hn.add hitem) h hadmits

/-- Runs keep a module well formed. -/
theorem run (h : m.WellFormed) (ds : List Decl) : (m.run ds).WellFormed :=
  run_induction (P := WellFormed) (fun _ _ hn hadmits => hn.add hadmits) h.types h ds

end WellFormed

/-- A module is well formed at every point of every run of declarations, accepted or refused. -/
theorem wellFormed_run (ds : List Decl) : (Module.empty.run ds).WellFormed :=
  wellFormed_empty.run ds

end Module

/-- The module of a session that declarations lead to. -/
theorem Session.wellFormed_module (ds : List Decl) : (start.run ds).module.WellFormed := by
  rw [module_run]
  exact Module.wellFormed_empty.run ds

end WasmAssembly
