import WasmAssembly.Proofs.Module.Rules
import WasmAssembly.Proofs.TypeTable

/-!
# `WasmAssembly.Proofs.Module.Additions`: a declaration as a list of additions

A declaration may do several things at once: a batch imports many entities, and a function may
bring a new signature, an export and the start with it. An `Item` is one of these things.
`Module.add` adds it and `Module.Admits` is the rule that it keeps, in the module as it is at that
moment.

`Module.items` lists the additions of each declaration. `declare_ok` says that an accepted
declaration is nothing else: it adds its items in order, and each of them keeps its rule when its
turn comes. So what every addition preserves, every declaration preserves.
-/

set_option autoImplicit false

namespace WasmAssembly

/-- One thing that a declaration adds to a module. -/
inductive Item where
  | signature (type : FuncType)
  | imported (scope name : String) (type : ExternType FuncType)
  | function (type : FuncType) (typeIndex : Nat) (locals : List LocalRun) (body : Bytes)
  | table (type : TableType)
  | memory (limits : Limits)
  | global (type : GlobalType) (init : ConstExpr)
  | exported (name : String) (kind : ExternalKind) (index : Nat)
  | start (index : Nat)
  | data (offset : UInt32) (bytes : Bytes)
  | custom (name : String) (bytes : Bytes)
  deriving DecidableEq

namespace Item

/-- The entity that an item is, if it is one. -/
def entity? : Item → Option (ExternType FuncType)
  | .imported _ _ type => some type
  | .function type _ _ _ => some (.func type)
  | .table type => some (.table type)
  | .memory limits => some (.memory limits)
  | .global type _ => some (.global type)
  | .signature _ | .exported _ _ _ | .start _ | .data _ _ | .custom _ _ => none

/-- The kind of the entity that an item is, if it is one. -/
def kind? (item : Item) : Option ExternalKind :=
  item.entity?.map ExternType.kind

end Item

namespace Module

/-- The module with one more item. -/
def add (m : Module) : Item → Module
  | .signature type => { m with types := (m.types.register type).2 }
  | .imported scope name type => (m.pushImport scope name type).module
  | .function _ typeIndex locals body =>
    { m with functions := m.functions.push ⟨typeIndex, locals, body ++ [endMarker]⟩ }
  | .table type => { m with tables := m.tables.push type }
  | .memory limits => { m with memories := m.memories.push limits }
  | .global type init => { m with globals := m.globals.push ⟨type, init⟩ }
  | .exported name kind index => { m with exports := m.exports.push ⟨name, kind, index⟩ }
  | .start index => { m with start := some index }
  | .data offset bytes => { m with data := m.data.push ⟨offset, bytes⟩ }
  | .custom name bytes => { m with customs := m.customs.push ⟨name, bytes⟩ }

/-- The module with more items, added in order. -/
def addAll (m : Module) (items : List Item) : Module :=
  items.foldl add m

/-- An index is that of a function which the module defines and which has neither parameters nor
results. -/
def CanStartAt (m : Module) (index : Nat) : Prop :=
  ∃ pos f, index = m.imported.func + pos ∧ m.functions[pos]? = some f ∧
    m.types.get? f.typeIndex = some .empty

/-- The rule that an item keeps when it is added. -/
def Admits (m : Module) : Item → Prop
  | .imported _ _ type =>
    type.LimitsOk ∧ m.definedCount type.kind = 0 ∧ (type.kind = .memory → m.count .memory = 0)
  | .function type typeIndex locals _ =>
    m.types.get? typeIndex = some type ∧ LocalsOk type locals
  | .table type => type.limits.Ordered
  | .memory limits => m.count .memory = 0 ∧ (ExternType.memory limits : ExternType Nat).LimitsOk
  | .global type init => m.Initializes init type.valType
  | .exported name kind index => m.NameFree name ∧ index < m.count kind
  | .start index => m.start = none ∧ m.CanStartAt index
  | .data _ _ => 0 < m.count .memory
  | .signature _ | .custom _ _ => True

/-- Each of several items keeps its rule when its turn comes. -/
def AdmitsAll (m : Module) : List Item → Prop
  | [] => True
  | item :: items => m.Admits item ∧ (m.add item).AdmitsAll items

/-- The export of an entity under a name, if one is given. -/
def exportItems (kind : ExternalKind) (index : Nat) : Option String → List Item
  | none => []
  | some name => [.exported name kind index]

/-- The start at a function, if it is to be. -/
def startItems (index : Nat) : Bool → List Item
  | false => []
  | true => [.start index]

/-- What the definition of a function adds. -/
def functionItems (m : Module) (type : FuncType) (typeIndex : Nat) (locals : List LocalRun)
    (body : Bytes) (options : FunctionOptions) : List Item :=
  .function type typeIndex locals body ::
    (exportItems .func (m.count .func) options.exportName ++
      startItems (m.count .func) options.start)

/-- What a declaration adds to a module, if it is accepted. -/
def items (m : Module) : Decl → List Item
  | .importEntity scope name type => [.imported scope name type]
  | .importBatch scope entries => entries.map fun entry => .imported scope entry.1 entry.2
  | .function type locals body options =>
    .signature type :: m.functionItems type (m.types.register type).1 locals body options
  | .functionOfType typeIndex locals body options =>
    match m.types.get? typeIndex with
    | none => []
    | some type => m.functionItems type typeIndex locals body options
  | .table type exportName =>
    .table type :: exportItems .table (m.count .table) exportName
  | .memory limits exportName =>
    .memory limits :: exportItems .memory (m.count .memory) exportName
  | .global type init exportName =>
    .global type init :: exportItems .global (m.count .global) exportName
  | .exportEntity name kind index => [.exported name kind index]
  | .data offset bytes => [.data offset bytes]
  | .custom name bytes => [.custom name bytes]

/-! ### Counting -/

/-- Imports are added to no list of definitions. -/
theorem definedCount_add_imported (m : Module) (scope name : String) (type : ExternType FuncType)
    (kind : ExternalKind) :
    (m.add (.imported scope name type)).definedCount kind = m.definedCount kind := by
  cases kind <;> rfl

/-- An entity is one more of its kind, and nothing else is counted. -/
theorem count_add (m : Module) (item : Item) (kind : ExternalKind) :
    (m.add item).count kind = m.count kind + if item.kind? = some kind then 1 else 0 := by
  cases item with
  | imported scope name type =>
      rw [count, definedCount_add_imported, count]
      show (m.imported.increment type.kind).of kind + _
        = _ + if some type.kind = some kind then 1 else 0
      rw [ImportCounts.of_increment]
      by_cases hkind : type.kind = kind
      · rw [if_pos hkind, if_pos (congrArg some hkind)]
        omega
      · rw [if_neg hkind, if_neg fun h => hkind (Option.some.inj h)]
        omega
  | function _ _ _ _ | table _ | memory _ | global _ _ =>
      cases kind <;>
        simp [count, definedCount, add, Item.kind?, Item.entity?, ExternType.kind, Nat.add_assoc]
  | signature _ | exported _ _ _ | start _ | data _ _ | custom _ _ =>
      show m.count kind = m.count kind + if none = some kind then 1 else 0
      rw [if_neg nofun, Nat.add_zero]

/-- An addition takes no entity away. -/
theorem count_le_count_add (m : Module) (item : Item) (kind : ExternalKind) :
    m.count kind ≤ (m.add item).count kind := by
  rw [count_add]
  exact Nat.le_add_right _ _

/-- The index of an entity is below the number of entities once it is added. -/
theorem count_lt_count_add (m : Module) (item : Item) {kind : ExternalKind}
    (h : item.kind? = some kind) : m.count kind < (m.add item).count kind := by
  rw [count_add, if_pos h]
  exact Nat.lt_succ_self _

/-! ### Adding several items -/

/-- Nothing is added for no items. -/
@[simp]
theorem addAll_nil (m : Module) : m.addAll [] = m := rfl

/-- Items are added from the first one on. -/
@[simp]
theorem addAll_cons (m : Module) (item : Item) (items : List Item) :
    m.addAll (item :: items) = (m.add item).addAll items := rfl

/-- To add items and then more is to add them all. -/
theorem addAll_append (m : Module) (xs ys : List Item) :
    m.addAll (xs ++ ys) = (m.addAll xs).addAll ys :=
  List.foldl_append

/-- Several items keep their rules if the first ones do, and the others do once these are added. -/
theorem admitsAll_append {m : Module} {xs ys : List Item} :
    m.AdmitsAll (xs ++ ys) ↔ m.AdmitsAll xs ∧ (m.addAll xs).AdmitsAll ys := by
  induction xs generalizing m with
  | nil => exact ⟨fun h => ⟨trivial, h⟩, fun h => h.2⟩
  | cons item xs ih =>
      rw [List.cons_append, AdmitsAll, AdmitsAll, ih, addAll_cons, and_assoc]

/-- The entities of a kind are those that were there and those that are added. -/
theorem count_addAll (m : Module) (items : List Item) (kind : ExternalKind) :
    (m.addAll items).count kind = m.count kind + items.countP (·.kind? = some kind) := by
  induction items generalizing m with
  | nil => rfl
  | cons item items ih =>
      rw [addAll_cons, ih, count_add, List.countP_cons]
      simp only [decide_eq_true_eq]
      omega

/-- What each addition preserves is preserved by several. -/
theorem addAll_induction {P : Module → Prop}
    (hadd : ∀ (m : Module) (item : Item), P m → m.Admits item → P (m.add item))
    {m : Module} {items : List Item} (hm : P m) (h : m.AdmitsAll items) : P (m.addAll items) := by
  induction items generalizing m with
  | nil => exact hm
  | cons item items ih => exact ih (hadd m item hm h.1) h.2

/-! ### What an accepted declaration adds -/

/-- An export with an entity is one item more. -/
theorem module_exportedAs (a : Accepted Nat) (kind : ExternalKind) (exportName : Option String) :
    (a.exportedAs kind exportName).module
      = a.module.addAll (exportItems kind a.value exportName) := by
  cases exportName <;> rfl

/-- A function that is appended adds its items. -/
theorem module_pushFunction (m : Module) (type : FuncType) (typeIndex : Nat)
    (locals : List LocalRun) (body : Bytes) (options : FunctionOptions) :
    (m.pushFunction typeIndex locals body options).module
      = m.addAll (m.functionItems type typeIndex locals body options) := by
  obtain ⟨exportName, start⟩ := options
  cases exportName <;> cases start <;> rfl

/-- Imports that are appended add an item each. -/
theorem module_pushImports (m : Module) (scope : String)
    (entries : List (String × ExternType FuncType)) :
    (m.pushImports scope entries).module
      = m.addAll (entries.map fun entry => .imported scope entry.1 entry.2) := by
  induction entries generalizing m with
  | nil => rfl
  | cons entry entries ih => exact ih (m.pushImport scope entry.1 entry.2).module

/-- The export of what has just been added keeps its rule, if the name was free before. -/
theorem admitsAll_exportItems {m : Module} {kind : ExternalKind} {index : Nat}
    {exportName : Option String} (hname : ∀ name ∈ exportName, m.NameFree name)
    (hindex : index < m.count kind) : m.AdmitsAll (exportItems kind index exportName) := by
  cases exportName with
  | none => exact trivial
  | some name => exact ⟨⟨hname name rfl, hindex⟩, trivial⟩

/-- The rules of a function, from its checks. -/
theorem admitsAll_functionItems {m : Module} {typeIndex : Nat} {type : FuncType}
    {locals : List LocalRun} {options : FunctionOptions} (body : Bytes)
    (htype : m.types.get? typeIndex = some type)
    (hcheck : m.checkFunction type locals options = .ok ()) :
    m.AdmitsAll (m.functionItems type typeIndex locals body options) := by
  obtain ⟨hlocals, hstart, hname⟩ := checkFunction_eq_ok.mp hcheck
  obtain ⟨exportName, start⟩ := options
  have hindex := count_lt_count_add m (.function type typeIndex locals body) rfl
  refine ⟨⟨htype, hlocals⟩, admitsAll_append.mpr ⟨?_, ?_⟩⟩
  · exact admitsAll_exportItems hname hindex
  · cases start with
    | false => exact trivial
    | true =>
        obtain ⟨hnone, rfl⟩ := hstart rfl
        -- The export in between, if there is one, changes neither functions nor types.
        cases exportName <;>
          exact ⟨⟨hnone, m.functions.size, _, rfl, Array.getElem?_push_size, htype⟩, trivial⟩

/-- The imports of a batch keep their rules one after the other. -/
theorem admitsAll_imports {m n : Module} {scope : String}
    {entries : List (String × ExternType FuncType)} {hasMemory : Bool}
    (hdefined : ∀ kind, n.definedCount kind = m.definedCount kind)
    (hmemory : hasMemory = false → n.count .memory = 0)
    (h : m.checkImports scope hasMemory entries = .ok ()) :
    n.AdmitsAll (entries.map fun entry => .imported scope entry.1 entry.2) := by
  -- The checks look at `m` all along, while `n` has the entries that came before. The two define
  -- the same entities, and of a memory in `n` the checks are told by `hasMemory`.
  induction entries generalizing n hasMemory with
  | nil => exact trivial
  | cons entry entries ih =>
      obtain ⟨name, type⟩ := entry
      obtain ⟨himport, honly, hrest⟩ := checkImports_cons_eq_ok.mp h
      obtain ⟨hlimits, hnone⟩ := checkImport_eq_ok.mp himport
      have hfree : type.kind = .memory → n.count .memory = 0 := fun hkind =>
        hmemory (checkOnlyMemory_eq_ok.mp honly hkind)
      refine ⟨⟨hlimits, ?_, hfree⟩, ih ?_ ?_ hrest⟩
      · -- The check of the order passes over memories, but there is none at all.
        by_cases hkind : type.kind = .memory
        · have hcount := hfree hkind
          rw [count] at hcount
          rw [hkind]
          omega
        · rw [hdefined, hnone hkind]
      · intro kind
        rw [definedCount_add_imported, hdefined]
      · intro hor
        obtain ⟨hno, hkind⟩ := Bool.or_eq_false_iff.mp hor
        have hother : ¬(Item.imported scope name type).kind? = some .memory := fun h =>
          beq_eq_false_iff_ne.mp hkind (Option.some.inj h)
        rw [count_add, hmemory hno, if_neg hother]

/-- Each item of an accepted declaration keeps its rule, and nothing but them is added. -/
theorem declare_ok {m : Module} {d : Decl} {a : Accepted Reply} (hm : m.types.Lawful)
    (h : m.declare d = .ok a) : m.AdmitsAll (m.items d) ∧ a.module = m.addAll (m.items d) := by
  cases d with
  | importEntity scope name type =>
      obtain ⟨b, hb, rfl⟩ := map_eq_ok.mp h
      obtain ⟨hcheck, rfl⟩ := addImport_eq_ok.mp hb
      exact ⟨admitsAll_imports (fun _ => rfl) hasMemory_eq_false.mp hcheck, rfl⟩
  | importBatch scope entries =>
      obtain ⟨b, hb, rfl⟩ := map_eq_ok.mp h
      obtain ⟨hcheck, rfl⟩ := addImports_eq_ok.mp hb
      exact ⟨admitsAll_imports (fun _ => rfl) hasMemory_eq_false.mp hcheck,
        module_pushImports m scope entries⟩
  | function type locals body options =>
      obtain ⟨b, hb, rfl⟩ := map_eq_ok.mp h
      obtain ⟨hcheck, rfl⟩ := addFunction_eq_ok.mp hb
      -- The signature comes first, and the function is added to the module that has it.
      have htype := TypeTable.get?_register hm type
      exact ⟨⟨trivial, admitsAll_functionItems body htype hcheck⟩,
        module_pushFunction _ type _ locals body options⟩
  | functionOfType typeIndex locals body options =>
      obtain ⟨b, hb, rfl⟩ := map_eq_ok.mp h
      obtain ⟨type, htype, hcheck, rfl⟩ := addFunctionOfType_eq_ok.mp hb
      rw [items, htype]
      exact ⟨admitsAll_functionItems body htype hcheck,
        module_pushFunction m type typeIndex locals body options⟩
  | table type exportName =>
      obtain ⟨b, hb, rfl⟩ := map_eq_ok.mp h
      obtain ⟨hcheck, rfl⟩ := addTable_eq_ok.mp hb
      obtain ⟨hlimits, hname⟩ := checkTable_eq_ok.mp hcheck
      have hindex := count_lt_count_add m (.table type) rfl
      exact ⟨⟨hlimits, admitsAll_exportItems hname hindex⟩, module_exportedAs _ .table exportName⟩
  | memory limits exportName =>
      obtain ⟨b, hb, rfl⟩ := map_eq_ok.mp h
      obtain ⟨hcheck, rfl⟩ := addMemory_eq_ok.mp hb
      obtain ⟨hnone, hlimits, hname⟩ := checkMemory_eq_ok.mp hcheck
      have hindex := count_lt_count_add m (.memory limits) rfl
      exact ⟨⟨⟨hnone, hlimits⟩, admitsAll_exportItems hname hindex⟩,
        module_exportedAs _ .memory exportName⟩
  | global type init exportName =>
      obtain ⟨b, hb, rfl⟩ := map_eq_ok.mp h
      obtain ⟨hcheck, rfl⟩ := addGlobal_eq_ok.mp hb
      obtain ⟨hinit, hname⟩ := checkGlobal_eq_ok.mp hcheck
      have hindex := count_lt_count_add m (.global type init) rfl
      exact ⟨⟨hinit, admitsAll_exportItems hname hindex⟩, module_exportedAs _ .global exportName⟩
  | exportEntity name kind index =>
      obtain ⟨b, hb, rfl⟩ := map_eq_ok.mp h
      obtain ⟨hcheck, rfl⟩ := addExport_eq_ok.mp hb
      exact ⟨⟨checkExport_eq_ok.mp hcheck, trivial⟩, rfl⟩
  | data offset bytes =>
      obtain ⟨b, hb, rfl⟩ := map_eq_ok.mp h
      obtain ⟨hmemory, rfl⟩ := addData_eq_ok.mp hb
      exact ⟨⟨hmemory, trivial⟩, rfl⟩
  | custom name bytes =>
      rw [← Except.ok.inj h]
      exact ⟨⟨trivial, trivial⟩, rfl⟩

end Module

end WasmAssembly
