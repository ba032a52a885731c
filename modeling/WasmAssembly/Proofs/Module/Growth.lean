import WasmAssembly.Proofs.Module.Run

/-!
# `WasmAssembly.Proofs.Module.Growth`: what one addition changes

Two kinds of facts about `Module.add`, from which invariants are put together.

* What is there stays: signatures, the globals that initializers read, and with them the types of
  initializers.
* What is new is the item: an import, a function or any other entry of the longer module was there
  before, or it is the one that the item describes (`mem_imports_add` and its like).
-/

set_option autoImplicit false

namespace WasmAssembly.Module

/-! ### Registered types -/

/-- An import keeps its kind when its signature is registered. -/
@[simp]
theorem kind_registerType (types : TypeTable) (type : ExternType FuncType) :
    (registerType types type).1.kind = type.kind := by
  cases type <;> rfl

/-- An import keeps its sizes when its signature is registered. -/
theorem limitsOk_registerType (types : TypeTable) (type : ExternType FuncType) :
    (registerType types type).1.LimitsOk ↔ type.LimitsOk := by
  cases type <;> exact Iff.rfl

/-- A function is imported with a type index of the table. -/
theorem lt_size_registerType {types : TypeTable} (ht : types.Lawful) {type : ExternType FuncType}
    {typeIndex : Nat} (h : (registerType types type).1 = .func typeIndex) :
    typeIndex < (registerType types type).2.size := by
  cases type with
  | func signature =>
      rw [← ExternType.func.inj h]
      exact TypeTable.register_lt_size ht signature
  | table _ | memory _ | global _ => exact absurd h nofun

/-! ### What stays -/

variable {m : Module}

/-- An addition only appends to the signatures. -/
theorem types_prefix_add (m : Module) (item : Item) :
    m.types.toList <+: (m.add item).types.toList := by
  cases item with
  | signature type => exact TypeTable.toList_prefix_register m.types type
  | imported scope name type =>
      cases type with
      | func type => exact TypeTable.toList_prefix_register m.types type
      | table _ | memory _ | global _ => exact List.prefix_rfl
  | _ => exact List.prefix_rfl

/-- An addition takes no signature away. -/
theorem size_types_le_add (m : Module) (item : Item) : m.types.size ≤ (m.add item).types.size := by
  have h := (types_prefix_add m item).length_le
  rwa [TypeTable.length_toList, TypeTable.length_toList] at h

/-- An addition leaves each signature at its type index. -/
theorem get?_types_add {typeIndex : Nat} {type : FuncType} (item : Item)
    (h : m.types.get? typeIndex = some type) :
    (m.add item).types.get? typeIndex = some type :=
  TypeTable.get?_of_prefix (types_prefix_add m item) h

/-- An imported global keeps its index. -/
theorem importedGlobal?_add {index : Nat} {global : GlobalType} (item : Item)
    (h : m.importedGlobal? index = some global) :
    (m.add item).importedGlobal? index = some global := by
  cases item with
  | imported scope name type =>
      -- If the import is a global, it comes behind those that are there.
      have hlt := (List.getElem?_eq_some_iff.mp h).1
      show (List.filterMap _ (m.imports.push _).toList)[index]? = some global
      rw [Array.toList_push, List.filterMap_append, List.getElem?_append_left hlt]
      exact h
  | _ => exact h

/-- An initializer keeps its type. -/
theorem Initializes.add {init : ConstExpr} {type : ValType} (h : m.Initializes init type)
    (item : Item) : (m.add item).Initializes init type := by
  cases h with
  | plain htype hclosed => exact .plain htype hclosed
  | globalGet hglobal hconst => exact .globalGet (importedGlobal?_add item hglobal) hconst
  | refFunc hindex => exact .refFunc (Nat.lt_of_lt_of_le hindex (count_le_count_add m item .func))

/-- A function that can be the start can be it as long as no function is imported before it. -/
theorem CanStartAt.add {index : Nat} (h : m.CanStartAt index) {item : Item}
    (hadmits : m.Admits item) : (m.add item).CanStartAt index := by
  obtain ⟨pos, f, hindex, hf, htype⟩ := h
  have hpos := (Array.getElem?_eq_some_iff.mp hf).1
  have htype' := get?_types_add item htype
  cases item with
  | imported scope name type =>
      refine ⟨pos, f, ?_, hf, htype'⟩
      cases type with
      | func signature =>
          -- The module defines a function, so none is imported any more.
          have hnone : m.functions.size = 0 := hadmits.2.1
          omega
      | table _ | memory _ | global _ => exact hindex
  | function type typeIndex locals body =>
      refine ⟨pos, f, hindex, ?_, htype'⟩
      show (m.functions.push _)[pos]? = some f
      rw [Array.getElem?_push_lt hpos, ← hf, Array.getElem?_eq_getElem hpos]
  | _ => exact ⟨pos, f, hindex, hf, htype'⟩

/-! ### What is new -/

/-- An import comes behind those that are there, with the next index of its kind. -/
theorem imports_add_imported (m : Module) (scope name : String) (type : ExternType FuncType) :
    (m.add (.imported scope name type)).imports =
      m.imports.push ⟨scope, name, m.imported.of type.kind, (registerType m.types type).1⟩ :=
  rfl

/-- An import is counted with its kind. -/
theorem imported_add_imported (m : Module) (scope name : String) (type : ExternType FuncType) :
    (m.add (.imported scope name type)).imported = m.imported.increment type.kind :=
  rfl

variable {item : Item}

/-- An import of the longer module is an old one or the one that is added. -/
theorem mem_imports_add {i : Import} (h : i ∈ (m.add item).imports) :
    i ∈ m.imports ∨ ∃ scope name type, item = .imported scope name type ∧
      i = ⟨scope, name, m.imported.of type.kind, (registerType m.types type).1⟩ := by
  cases item with
  | imported scope name type =>
      exact (Array.mem_push.mp h).imp_right fun hi => ⟨scope, name, type, rfl, hi⟩
  | _ => exact .inl h

/-- A function of the longer module is an old one or the one that is added. -/
theorem mem_functions_add {f : Function} (h : f ∈ (m.add item).functions) :
    f ∈ m.functions ∨ ∃ type typeIndex locals body, item = .function type typeIndex locals body ∧
      f = ⟨typeIndex, locals, body ++ [endMarker]⟩ := by
  cases item with
  | function type typeIndex locals body =>
      exact (Array.mem_push.mp h).imp_right fun hf => ⟨type, typeIndex, locals, body, rfl, hf⟩
  | _ => exact .inl h

/-- A table of the longer module is an old one or the one that is added. -/
theorem mem_tables_add {t : TableType} (h : t ∈ (m.add item).tables) :
    t ∈ m.tables ∨ item = .table t := by
  cases item with
  | table type =>
      obtain hold | rfl := Array.mem_push.mp h
      · exact .inl hold
      · exact .inr rfl
  | _ => exact .inl h

/-- A memory of the longer module is an old one or the one that is added. -/
theorem mem_memories_add {l : Limits} (h : l ∈ (m.add item).memories) :
    l ∈ m.memories ∨ item = .memory l := by
  cases item with
  | memory limits =>
      obtain hold | rfl := Array.mem_push.mp h
      · exact .inl hold
      · exact .inr rfl
  | _ => exact .inl h

/-- A global of the longer module is an old one or the one that is added. -/
theorem mem_globals_add {g : Global} (h : g ∈ (m.add item).globals) :
    g ∈ m.globals ∨ item = .global g.type g.init := by
  cases item with
  | global type init =>
      obtain hold | rfl := Array.mem_push.mp h
      · exact .inl hold
      · exact .inr rfl
  | _ => exact .inl h

/-- An export of the longer module is an old one or the one that is added. -/
theorem mem_exports_add {e : Export} (h : e ∈ (m.add item).exports) :
    e ∈ m.exports ∨ item = .exported e.name e.kind e.index := by
  cases item with
  | exported name kind index =>
      obtain hold | rfl := Array.mem_push.mp h
      · exact .inl hold
      · exact .inr rfl
  | _ => exact .inl h

end WasmAssembly.Module
