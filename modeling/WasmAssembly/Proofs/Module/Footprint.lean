import WasmAssembly.Proofs.Module.Run

/-!
# `WasmAssembly.Proofs.Module.Footprint`: the lists that a declaration appends to

`Decl.appendsTo` says to which lists of a module a declaration appends, as far as the declaration
itself tells. A module has one list for each of `ModuleList`; the start and the numbers of imports
go with the functions and the imports.

All other lists stay as they are (`same_addAll`), and items that go to different lists can be added
in either order (`addAll_comm`). What is defined and what is imported is told apart as well: the
number of definitions of a kind only grows, and as long as imports keep their rule, it was zero
before each import of the kind (`definedCount_eq_zero_of_mem`).
-/

set_option autoImplicit false

namespace WasmAssembly

/-- A list of a module that declarations append to. -/
inductive ModuleList where
  | types
  | imports
  | functions
  | tables
  | memories
  | globals
  | exports
  | data
  | customs
  deriving DecidableEq

/-- Two modules have the same in a list. -/
def ModuleList.Same (m n : Module) : ModuleList → Prop
  | types => m.types = n.types
  | imports => m.imports = n.imports ∧ m.imported = n.imported
  | functions => m.functions = n.functions ∧ m.start = n.start
  | tables => m.tables = n.tables
  | memories => m.memories = n.memories
  | globals => m.globals = n.globals
  | exports => m.exports = n.exports
  | data => m.data = n.data
  | customs => m.customs = n.customs

/-- The list that the definitions of a kind are appended to. -/
def ExternalKind.definitions : ExternalKind → ModuleList
  | .func => .functions
  | .table => .tables
  | .memory => .memories
  | .global => .globals

/-- The lists that an import is appended to: that of a function may bring a new signature. -/
def ExternType.importedTo (type : ExternType FuncType) : List ModuleList :=
  .imports :: if type.kind = .func then [.types] else []

/-- The list that an entity is appended to for its export name, if it has one. -/
def exportedTo : Option String → List ModuleList
  | none => []
  | some _ => [.exports]

/-- The lists that a declaration appends to. -/
def Decl.appendsTo : Decl → List ModuleList
  | .importEntity _ _ type => type.importedTo
  | .importBatch _ entries => entries.flatMap (·.2.importedTo)
  | .function _ _ _ options => .types :: .functions :: exportedTo options.exportName
  | .functionOfType _ _ _ options => .functions :: exportedTo options.exportName
  | .table _ exportName => .tables :: exportedTo exportName
  | .memory _ exportName => .memories :: exportedTo exportName
  | .global _ _ exportName => .globals :: exportedTo exportName
  | .exportEntity _ _ _ => [.exports]
  | .data _ _ => [.data]
  | .custom _ _ => [.customs]

/-- The kind of the entity that a declaration defines, if it defines one. -/
def Decl.defined? : Decl → Option ExternalKind
  | .function _ _ _ _ | .functionOfType _ _ _ _ => some .func
  | .table _ _ => some .table
  | .memory _ _ => some .memory
  | .global _ _ _ => some .global
  | .importEntity _ _ _ | .importBatch _ _ | .exportEntity _ _ _ | .data _ _ | .custom _ _ => none

namespace ModuleList.Same

/-- A module has the same as itself in every list. -/
theorem refl (m : Module) (list : ModuleList) : list.Same m m := by
  cases list <;>
    first
    | rfl
    | exact ⟨rfl, rfl⟩

/-- What two modules have in common with a third one they have in common. -/
theorem trans {m n o : Module} {list : ModuleList} (hmn : list.Same m n) (hno : list.Same n o) :
    list.Same m o := by
  cases list with
  | imports | functions => exact ⟨hmn.1.trans hno.1, hmn.2.trans hno.2⟩
  | _ => exact Eq.trans hmn hno

end ModuleList.Same

namespace Item

/-- The lists that an item is added to. A start counts with the functions: it is only added
together with one. -/
def appendsTo : Item → List ModuleList
  | .signature _ => [.types]
  | .imported _ _ type => type.importedTo
  | .function _ _ _ _ | .start _ => [.functions]
  | .table _ => [.tables]
  | .memory _ => [.memories]
  | .global _ _ => [.globals]
  | .exported _ _ _ => [.exports]
  | .data _ _ => [.data]
  | .custom _ _ => [.customs]

/-- The kind of the entity that an item defines, if it defines one. An import defines nothing. -/
def defined? : Item → Option ExternalKind
  | .function _ _ _ _ => some .func
  | .table _ => some .table
  | .memory _ => some .memory
  | .global _ _ => some .global
  | .signature _ | .imported _ _ _ | .exported _ _ _ | .start _ | .data _ _ | .custom _ _ => none

variable {item : Item} {kind : ExternalKind}

/-- What is defined is added to the list of its kind. -/
theorem mem_appendsTo_of_defined (h : item.defined? = some kind) :
    kind.definitions ∈ item.appendsTo := by
  cases item <;> simp only [defined?, Option.some.injEq, reduceCtorEq] at h
  all_goals
    subst h
    exact List.mem_singleton_self _

/-- An entity is defined or imported. -/
theorem defined_or_imported (h : item.kind? = some kind) :
    item.defined? = some kind ∨
      ∃ scope name type, item = .imported scope name type ∧ type.kind = kind := by
  cases item with
  | imported scope name type => exact .inr ⟨scope, name, type, rfl, Option.some.inj h⟩
  | _ => exact .inl h

end Item

/-- What defines an entity appends to the list of its kind. -/
theorem Decl.mem_appendsTo_of_defined {d : Decl} {kind : ExternalKind}
    (h : d.defined? = some kind) : kind.definitions ∈ d.appendsTo := by
  cases d <;> simp only [defined?, Option.some.injEq, reduceCtorEq] at h
  all_goals
    subst h
    simp [appendsTo, ExternalKind.definitions]

namespace Module

/-! ### Additions to different lists -/

/-- Items that go to different lists can be added in either order. -/
theorem add_comm (m : Module) {x y : Item} (h : x.appendsTo.Disjoint y.appendsTo) :
    (m.add x).add y = (m.add y).add x := by
  have hshared : ∀ list ∈ x.appendsTo, list ∉ y.appendsTo := fun _ hx hy => h hx hy
  clear h
  -- Items of different kinds change different fields. An import may go together with a signature,
  -- if it is no function.
  cases x with
  | imported scope name type =>
      cases type <;> cases y <;>
        first
        | rfl
        | simp [Item.appendsTo, ExternType.importedTo, ExternType.kind] at hshared
  | _ =>
      cases y with
      | imported scope name type =>
          cases type <;>
            first
            | rfl
            | simp [Item.appendsTo, ExternType.importedTo, ExternType.kind] at hshared
      | _ =>
          first
          | rfl
          | simp [Item.appendsTo] at hshared

/-- An item can be added before or after items that go to other lists. -/
theorem add_addAll_comm (m : Module) {x : Item} {ys : List Item}
    (h : ∀ y ∈ ys, x.appendsTo.Disjoint y.appendsTo) :
    (m.add x).addAll ys = (m.addAll ys).add x := by
  induction ys generalizing m with
  | nil => rfl
  | cons y ys ih =>
      obtain ⟨hy, hys⟩ := List.forall_mem_cons.mp h
      rw [addAll_cons, addAll_cons, add_comm m hy, ih (m.add y) hys]

/-- Items that go to different lists can be added in either order, all of them. -/
theorem addAll_comm (m : Module) {xs ys : List Item}
    (h : ∀ x ∈ xs, ∀ y ∈ ys, x.appendsTo.Disjoint y.appendsTo) :
    (m.addAll xs).addAll ys = (m.addAll ys).addAll xs := by
  induction xs generalizing m with
  | nil => rfl
  | cons x xs ih =>
      obtain ⟨hx, hxs⟩ := List.forall_mem_cons.mp h
      rw [addAll_cons, addAll_cons, ih (m.add x) hxs, add_addAll_comm m hx]

/-- An item changes nothing but the lists that it is added to. -/
theorem same_add (m : Module) {item : Item} {list : ModuleList} (h : list ∉ item.appendsTo) :
    list.Same (m.add item) m := by
  cases item with
  | imported scope name type =>
      cases type <;> cases list <;>
        first
        | rfl
        | exact ⟨rfl, rfl⟩
        | simp [Item.appendsTo, ExternType.importedTo, ExternType.kind] at h
  | _ =>
      cases list <;>
        first
        | rfl
        | exact ⟨rfl, rfl⟩
        | simp [Item.appendsTo] at h

/-- Items change nothing but the lists that they are added to. -/
theorem same_addAll (m : Module) {items : List Item} {list : ModuleList}
    (h : ∀ item ∈ items, list ∉ item.appendsTo) : list.Same (m.addAll items) m := by
  induction items generalizing m with
  | nil => exact .refl m list
  | cons item items ih =>
      obtain ⟨hitem, hitems⟩ := List.forall_mem_cons.mp h
      exact (ih (m.add item) hitems).trans (same_add m hitem)

/-! ### Definitions and imports -/

/-- A definition is one more of its kind, and nothing else is counted. -/
theorem definedCount_add (m : Module) (item : Item) (kind : ExternalKind) :
    (m.add item).definedCount kind
      = m.definedCount kind + if item.defined? = some kind then 1 else 0 := by
  cases item with
  | imported scope name type => exact definedCount_add_imported m scope name type kind
  | _ => cases kind <;> simp [definedCount, add, Item.defined?]

/-- Additions take no definition away. -/
theorem definedCount_le_addAll (m : Module) (items : List Item) (kind : ExternalKind) :
    m.definedCount kind ≤ (m.addAll items).definedCount kind := by
  induction items generalizing m with
  | nil => exact Nat.le_refl _
  | cons item items ih =>
      have hitem := definedCount_add m item kind
      have hitems := ih (m.add item)
      rw [addAll_cons]
      omega

/-- What defines an entity leaves a definition of its kind behind. -/
theorem definedCount_pos_of_mem {m : Module} {items : List Item} {item : Item}
    {kind : ExternalKind} (hmem : item ∈ items) (h : item.defined? = some kind) :
    0 < (m.addAll items).definedCount kind := by
  -- The definition counts from its turn on.
  obtain ⟨before, after, rfl⟩ := List.append_of_mem hmem
  have hone := definedCount_add (m.addAll before) item kind
  have hrest := definedCount_le_addAll ((m.addAll before).add item) after kind
  rw [if_pos h] at hone
  rw [addAll_append, addAll_cons]
  omega

/-- Nothing of the kind of an import is defined, neither when its turn comes nor before. -/
theorem definedCount_eq_zero_of_mem {m : Module} {items : List Item} (hadmits : m.AdmitsAll items)
    {scope name : String} {type : ExternType FuncType}
    (hmem : Item.imported scope name type ∈ items) : m.definedCount type.kind = 0 := by
  obtain ⟨before, after, rfl⟩ := List.append_of_mem hmem
  obtain ⟨-, himport, -⟩ := admitsAll_append.mp hadmits
  have hturn : (m.addAll before).definedCount type.kind = 0 := himport.2.1
  have hbefore := definedCount_le_addAll m before type.kind
  omega

/-! ### The items of a declaration -/

/-- An export of what is declared goes to the exports. -/
theorem appendsTo_of_mem_exportItems {kind : ExternalKind} {index : Nat}
    {exportName : Option String} {item : Item} (h : item ∈ exportItems kind index exportName) :
    item.appendsTo ⊆ exportedTo exportName := by
  cases exportName with
  | none => exact absurd h List.not_mem_nil
  | some name =>
      rw [List.mem_singleton.mp h]
      exact List.Subset.refl _

/-- What comes with a function goes to the functions, or to the exports if it is exported. -/
theorem appendsTo_of_mem_functionItems {m : Module} {type : FuncType} {typeIndex : Nat}
    {locals : List LocalRun} {body : Bytes} {options : FunctionOptions} {item : Item}
    (h : item ∈ m.functionItems type typeIndex locals body options) :
    item.appendsTo ⊆ .functions :: exportedTo options.exportName := by
  obtain ⟨exportName, start⟩ := options
  obtain rfl | hrest := List.mem_cons.mp h
  · simp [Item.appendsTo]
  · obtain hexport | hstart := List.mem_append.mp hrest
    · exact List.subset_cons_of_subset _ (appendsTo_of_mem_exportItems hexport)
    · cases start with
      | false => exact absurd hstart List.not_mem_nil
      | true =>
          rw [List.mem_singleton.mp hstart]
          simp [Item.appendsTo]

/-- A declaration adds to no other lists than those it names. -/
theorem appendsTo_of_mem_items {m : Module} {d : Decl} {item : Item} (h : item ∈ m.items d) :
    item.appendsTo ⊆ d.appendsTo := by
  cases d with
  | importBatch scope entries =>
      obtain ⟨entry, hentry, rfl⟩ := List.mem_map.mp h
      exact fun _ hlist => List.mem_flatMap.mpr ⟨entry, hentry, hlist⟩
  | function type locals body options =>
      obtain rfl | hrest := List.mem_cons.mp h
      · simp [Item.appendsTo, Decl.appendsTo]
      · exact List.subset_cons_of_subset _ (appendsTo_of_mem_functionItems hrest)
  | functionOfType typeIndex locals body options =>
      rw [items] at h
      cases htype : m.types.get? typeIndex with
      | none =>
          rw [htype] at h
          exact absurd h List.not_mem_nil
      | some type =>
          rw [htype] at h
          exact appendsTo_of_mem_functionItems h
  | table type exportName | memory limits exportName | global type init exportName =>
      obtain rfl | hrest := List.mem_cons.mp h
      · simp [Item.appendsTo, Decl.appendsTo]
      · exact List.subset_cons_of_subset _ (appendsTo_of_mem_exportItems hrest)
  | importEntity _ _ _ | exportEntity _ _ _ | data _ _ | custom _ _ =>
      rw [List.mem_singleton.mp h]
      exact List.Subset.refl _

/-- An accepted definition is among the items. -/
theorem exists_mem_items_of_defined {m : Module} {d : Decl} {a : Accepted Reply}
    (h : m.declare d = .ok a) {kind : ExternalKind} (hd : d.defined? = some kind) :
    ∃ item ∈ m.items d, item.defined? = some kind := by
  cases d with
  | function type locals body options =>
      exact ⟨_, List.mem_cons_of_mem _ List.mem_cons_self, hd⟩
  | functionOfType typeIndex locals body options =>
      obtain ⟨b, hb, rfl⟩ := map_eq_ok.mp h
      obtain ⟨type, htype, -, rfl⟩ := addFunctionOfType_eq_ok.mp hb
      rw [items, htype]
      exact ⟨_, List.mem_cons_self, hd⟩
  | table _ _ | memory _ _ | global _ _ _ => exact ⟨_, List.mem_cons_self, hd⟩
  | _ => simp only [Decl.defined?, reduceCtorEq] at hd

/-- What a declaration imports does not depend on the module. -/
theorem imported_mem_items {m n : Module} {d : Decl} {scope name : String}
    {type : ExternType FuncType} (h : Item.imported scope name type ∈ m.items d) :
    Item.imported scope name type ∈ n.items d := by
  have hlist := appendsTo_of_mem_items h List.mem_cons_self
  cases d with
  | importEntity _ _ _ | importBatch _ _ => exact h
  -- The others do not append to the imports.
  | function _ _ _ options | functionOfType _ _ _ options =>
      obtain ⟨exportName, start⟩ := options
      cases exportName <;> simp [Decl.appendsTo, exportedTo] at hlist
  | table _ exportName | memory _ exportName | global _ _ exportName =>
      cases exportName <;> simp [Decl.appendsTo, exportedTo] at hlist
  | exportEntity _ _ _ | data _ _ | custom _ _ => simp [Decl.appendsTo] at hlist

end Module

end WasmAssembly
