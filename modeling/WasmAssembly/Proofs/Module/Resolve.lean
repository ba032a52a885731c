import WasmAssembly.Proofs.Module.WellFormed

/-!
# `WasmAssembly.Proofs.Module.Resolve`: what an index stands for

`Module.resolve` looks an index up among the imports of a kind and then among what the module
defines. The index spaces are also lists, `Module.space`, and `resolve_eq_space` says that the two
agree.

Additions only append to an index space (`space_add`). This is where the rule counts that imports
come before definitions: an import after a definition would move everything that is defined.
`Module.Extends` says that one module has all that another one has, where it had it; it holds along
every run, and resolved indices stay what they are.
-/

set_option autoImplicit false

namespace WasmAssembly

namespace Module

/-- The entities of a kind in the order of their indices. -/
def space (m : Module) (kind : ExternalKind) : List (ExternType Nat) :=
  m.importedOf kind ++ m.definedOf kind

/-- The entity that an item is, if it is one, as the module holds it. -/
def stored? (m : Module) : Item → Option (ExternType Nat)
  | .imported _ _ type => some (registerType m.types type).1
  | .function _ typeIndex _ _ => some (.func typeIndex)
  | .table type => some (.table type)
  | .memory limits => some (.memory limits)
  | .global type _ => some (.global type)
  | .signature _ | .exported _ _ _ | .start _ | .data _ _ | .custom _ _ => none

/-! ### Index spaces -/

/-- The imports of a kind are as many as the module keeps account of. -/
theorem length_importedOf {m : Module} (h : m.WellFormed) (kind : ExternalKind) :
    (m.importedOf kind).length = m.imported.of kind := by
  rw [importedOf, List.length_map, ← List.countP_eq_length_filter, h.importCounts]

/-- The definitions of a kind are counted. -/
theorem length_definedOf (m : Module) (kind : ExternalKind) :
    (m.definedOf kind).length = m.definedCount kind := by
  cases kind <;> simp only [definedOf, definedCount, List.length_map, Array.length_toList]

/-- An index space has an index for each entity of its kind. -/
theorem length_space {m : Module} (h : m.WellFormed) (kind : ExternalKind) :
    (m.space kind).length = m.count kind := by
  rw [space, List.length_append, length_importedOf h, length_definedOf, count]

/-- An index is a position in the index space. -/
theorem resolve_eq_space {m : Module} (h : m.WellFormed) (kind : ExternalKind) (index : Nat) :
    m.resolve kind index = (m.space kind)[index]?.bind m.spellOut := by
  have hlength := length_importedOf h kind
  -- The branches of `resolve` are the two parts of the list.
  show Option.bind (if _ then _ else _) _ = _
  by_cases hindex : index < m.imported.of kind
  · rw [if_pos hindex, space, List.getElem?_append_left (by omega)]
  · rw [if_neg hindex, space, List.getElem?_append_right (by omega), hlength]

/-- Every entity of a well-formed module can be spelled out. -/
theorem spellOut_isSome {m : Module} (h : m.WellFormed) {kind : ExternalKind}
    {type : ExternType Nat} (htype : type ∈ m.space kind) : (m.spellOut type).isSome = true := by
  cases type with
  | table _ | memory _ | global _ => rfl
  | func typeIndex =>
      -- Functions stand in the index space of functions only, imported or defined.
      have hlt : typeIndex < m.types.size := by
        obtain himported | hdefined := List.mem_append.mp htype
        · obtain ⟨i, hi, hitype⟩ := List.mem_map.mp himported
          have hmem := Array.mem_toList_iff.mp (List.mem_filter.mp hi).1
          exact h.importTypes i hmem typeIndex hitype
        · cases kind with
          | func =>
              obtain ⟨f, hf, hftype⟩ := List.mem_map.mp hdefined
              rw [← ExternType.func.inj hftype]
              exact h.functionTypes f (Array.mem_toList_iff.mp hf)
          | table | memory | global =>
              obtain ⟨_, _, hother⟩ := List.mem_map.mp hdefined
              exact absurd hother nofun
      rw [spellOut, TypeTable.get?_eq_some_of_lt hlt]
      rfl

/-- The indices that stand for something are those below the number of entities. -/
theorem resolve_isSome_iff {m : Module} (h : m.WellFormed) (kind : ExternalKind) (index : Nat) :
    (m.resolve kind index).isSome = true ↔ index < m.count kind := by
  rw [resolve_eq_space h, ← length_space h]
  by_cases hindex : index < (m.space kind).length
  · rw [List.getElem?_eq_getElem hindex, Option.bind_some]
    exact ⟨fun _ => hindex, fun _ => spellOut_isSome h (List.getElem_mem hindex)⟩
  · rw [List.getElem?_eq_none (Nat.le_of_not_lt hindex)]
    exact ⟨nofun, fun h => absurd h hindex⟩

/-! ### Appending -/

/-- An import comes behind those of its kind. -/
theorem importedOf_add_imported (m : Module) (scope name : String) (type : ExternType FuncType)
    (kind : ExternalKind) :
    (m.add (.imported scope name type)).importedOf kind
      = m.importedOf kind ++ [(registerType m.types type).1].filter (·.kind = kind) := by
  rw [importedOf, imports_add_imported, Array.toList_push, List.filter_append, List.map_append,
    importedOf, List.filter_cons, List.filter_cons, Import.kind]
  by_cases hkind : decide ((registerType m.types type).1.kind = kind) = true
  · rw [if_pos hkind, if_pos hkind]
    rfl
  · rw [if_neg hkind, if_neg hkind]
    rfl

/-- An addition appends its entity to the index space of its kind and changes no other. -/
theorem space_add {m : Module} {item : Item} (hadmits : m.Admits item) (kind : ExternalKind) :
    (m.add item).space kind = m.space kind ++ (m.stored? item).toList.filter (·.kind = kind) := by
  cases item with
  | imported scope name type =>
      have hdefined : (m.add (.imported scope name type)).definedOf kind = m.definedOf kind := by
        cases kind <;> rfl
      rw [space, importedOf_add_imported, hdefined, space, stored?, Option.toList_some]
      by_cases hkind : type.kind = kind
      · -- The module defines nothing of the kind, so the end of the imports is the end.
        have hnone : m.definedOf kind = [] := by
          rw [← List.length_eq_zero_iff, length_definedOf, ← hkind]
          exact hadmits.2.1
        rw [hnone, List.append_nil, List.append_nil]
      · have hother : ¬decide ((registerType m.types type).1.kind = kind) = true := by
          rwa [kind_registerType, decide_eq_true_iff]
        rw [List.filter_cons, if_neg hother, List.filter_nil, List.append_nil, List.append_nil]
  | function _ _ _ _ | table _ | memory _ | global _ _ =>
      cases kind <;> simp [space, definedOf, importedOf, add, stored?, ExternType.kind]
  | _ => exact (List.append_nil _).symm

/-- One module has everything that another one has, where the other one has it. -/
structure Extends (m n : Module) : Prop where
  space : ∀ kind, m.space kind <+: n.space kind
  types : m.types.toList <+: n.types.toList

namespace Extends

/-- A module has everything that it has. -/
theorem refl (m : Module) : m.Extends m :=
  ⟨fun _ => List.prefix_rfl, List.prefix_rfl⟩

/-- What one module has of another one and the other one of a third it has of the third. -/
theorem trans {l m n : Module} (hlm : l.Extends m) (hmn : m.Extends n) : l.Extends n :=
  ⟨fun kind => (hlm.space kind).trans (hmn.space kind), hlm.types.trans hmn.types⟩

/-- An addition in keeping with its rule extends a module. -/
theorem add {m : Module} {item : Item} (hadmits : m.Admits item) : m.Extends (m.add item) where
  space kind := by
    rw [space_add hadmits]
    exact List.prefix_append _ _
  types := types_prefix_add m item

/-- Items that keep their rules one after the other extend a module. -/
theorem addAll {m : Module} {items : List Item} (hadmits : m.AdmitsAll items) :
    m.Extends (m.addAll items) :=
  addAll_induction (P := m.Extends) (fun _ _ hn hitem => hn.trans (add hitem)) (refl m) hadmits

/-- Every run extends the module it starts from. -/
theorem run {m : Module} (h : m.WellFormed) (ds : List Decl) : m.Extends (m.run ds) :=
  run_induction (P := m.Extends) (fun _ _ hn hitem => hn.trans (add hitem)) h.types (refl m) ds

variable {m n : Module}

/-- A signature is at the same type index in an extension. -/
theorem get?_types (h : m.Extends n) {typeIndex : Nat} {type : FuncType}
    (htype : m.types.get? typeIndex = some type) : n.types.get? typeIndex = some type :=
  TypeTable.get?_of_prefix h.types htype

/-- An entity is spelled out in the same way in an extension. -/
theorem spellOut (h : m.Extends n) {type : ExternType Nat} {e : ExternType FuncType}
    (htype : m.spellOut type = some e) : n.spellOut type = some e := by
  cases type with
  | func typeIndex =>
      rw [Module.spellOut, Option.map_eq_some_iff] at htype ⊢
      obtain ⟨signature, hget, hsignature⟩ := htype
      exact ⟨signature, h.get?_types hget, hsignature⟩
  | table _ | memory _ | global _ => exact htype

/-- An index stands for the same entity in an extension. -/
theorem resolve (h : m.Extends n) (hm : m.WellFormed) (hn : n.WellFormed) {kind : ExternalKind}
    {index : Nat} {e : ExternType FuncType} (hresolve : m.resolve kind index = some e) :
    n.resolve kind index = some e := by
  rw [resolve_eq_space hm, Option.bind_eq_some_iff] at hresolve
  rw [resolve_eq_space hn, Option.bind_eq_some_iff]
  obtain ⟨type, hget, htype⟩ := hresolve
  have hlt := (List.getElem?_eq_some_iff.mp hget).1
  -- The entity is at the same place, and a function has the same signature at its type index.
  obtain ⟨more, hmore⟩ := h.space kind
  refine ⟨type, ?_, h.spellOut htype⟩
  rw [← hmore, List.getElem?_append_left hlt, hget]

end Extends

end Module

end WasmAssembly
