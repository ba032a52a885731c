import WasmAssembly.Proofs.Module.Calls

/-!
# `WasmAssembly.Proofs.Module.Log`: what is recorded of a run

The log is read in two ways. Call by call, it holds the records that the declarations and their
answers ask for (`Call.records`), and nothing of what is refused. Addition by addition, each entity,
export and data segment is recorded where it is added (`Module.itemRecords`), so the log can be held
against the module: `filterMap_itemRecords` says that what the records tell of a list of the module
is that list.

`log_run` has both. Custom sections are the only declarations that are not recorded
(`custom_not_recorded`).
-/

set_option autoImplicit false

namespace WasmAssembly

/-! ### What records tell -/

namespace Record

/-- The entity that is recorded, by its kind and index. -/
def entity? : Record → Option (ExternalKind × Nat)
  | imported _ _ kind index => some (kind, index)
  | function index _ => some (.func, index)
  | table index _ => some (.table, index)
  | memory index _ => some (.memory, index)
  | global index _ => some (.global, index)
  | _ => none

/-- The index of the entity that is recorded, if it is of a kind. -/
def index? (kind : ExternalKind) (r : Record) : Option Nat :=
  r.entity?.bind fun entity => if entity.1 = kind then some entity.2 else none

/-- The export that is recorded. -/
def export? : Record → Option Export
  | exported name kind index => some ⟨name, kind, index⟩
  | _ => none

/-- The number of the data segment that is recorded. -/
def segment? : Record → Option Nat
  | data index _ _ => some index
  | _ => none

end Record

/-- The record of an export. -/
def Export.record (e : Export) : Record :=
  .exported e.name e.kind e.index

namespace Module

/-- The records of what an accepted declaration declares, with the indices that it is answered. An
export has its own record, and a custom section has none. -/
def declaredRecords (m : Module) : Decl → Reply → List Record
  | .importEntity scope name type, .index i => [.imported scope name type.kind i]
  | .importBatch scope entries, .indices is =>
    entries.zipWith (fun entry i => .imported scope entry.1 entry.2.kind i) is
  | .function type _ _ _, .index i => [.function i (m.types.register type).1]
  | .functionOfType typeIndex _ _ _, .index i => [.function i typeIndex]
  | .table type _, .index i => [.table i type]
  | .memory limits _, .index i => [.memory i limits]
  | .global type _ _, .index i => [.global i type]
  | .data offset bytes, .index i => [.data i bytes.length offset]
  | .exportEntity _ _ _, _ | .custom _ _, _ => []
  | _, _ => []

/-- The record of an item in the module that it is added to. -/
def record? (m : Module) : Item → Option Record
  | .imported scope name type =>
    some (.imported scope name type.kind (m.imported.of type.kind))
  | .function _ typeIndex _ _ => some (.function (m.count .func) typeIndex)
  | .table type => some (.table (m.count .table) type)
  | .memory limits => some (.memory (m.count .memory) limits)
  | .global type _ => some (.global (m.count .global) type)
  | .exported name kind index => some (.exported name kind index)
  | .data offset bytes => some (.data m.data.size bytes.length offset)
  | .signature _ | .start _ | .custom _ _ => none

/-- The records of items that are added one after the other. -/
def itemRecords (m : Module) : List Item → List Record
  | [] => []
  | item :: items => (m.record? item).toList ++ (m.add item).itemRecords items

end Module

/-- The records that a call leaves: first what is declared, then its export. A refused call leaves
none. -/
def Call.records (c : Call) : List Record :=
  match c.answer with
  | .ok reply =>
    c.before.declaredRecords c.decl reply ++ ((c.decl.exported? reply).map Export.record).toList
  | .error _ => []

/-! ### The records of a declaration -/

namespace Module

/-- A function is recorded, and its export behind it. -/
theorem records_pushFunction (m : Module) (typeIndex : Nat) (locals : List LocalRun) (body : Bytes)
    (options : FunctionOptions) :
    (m.pushFunction typeIndex locals body options).records
      = [.function (m.pushFunction typeIndex locals body options).value typeIndex]
        ++ ((options.exportName.map
          (.named .func (m.pushFunction typeIndex locals body options).value)).map
            Export.record).toList := by
  obtain ⟨exportName, start⟩ := options
  cases exportName <;> cases start <;> rfl

/-- The imports of a batch are recorded in order, each with its index. -/
theorem records_pushImports (m : Module) (scope : String)
    (entries : List (String × ExternType FuncType)) :
    (m.pushImports scope entries).records
      = entries.zipWith (fun entry i => .imported scope entry.1 entry.2.kind i)
          (m.pushImports scope entries).value := by
  induction entries generalizing m with
  | nil => rfl
  | cons entry entries ih => exact congrArg (_ :: ·) (ih _)

/-- An accepted declaration is recorded as its answer tells. -/
theorem records_declare {m : Module} {d : Decl} {a : Accepted Reply} (h : m.declare d = .ok a) :
    a.records
      = m.declaredRecords d a.value ++ ((d.exported? a.value).map Export.record).toList := by
  have houtcome := eq_outcome_of_declare h
  subst houtcome
  cases d with
  | importBatch scope entries =>
      -- Imports are not exported with their declaration.
      exact (records_pushImports m scope entries).trans (List.append_nil _).symm
  | function type locals body options => exact records_pushFunction _ _ locals body options
  | functionOfType typeIndex locals body options =>
      exact records_pushFunction m typeIndex locals body options
  | table _ exportName | memory _ exportName | global _ _ exportName => cases exportName <;> rfl
  | importEntity _ _ _ | exportEntity _ _ _ | data _ _ | custom _ _ => rfl

/-- The records of a batch are those of its items. -/
theorem itemRecords_pushImports (m : Module) (scope : String)
    (entries : List (String × ExternType FuncType)) :
    (m.pushImports scope entries).records
      = m.itemRecords (entries.map fun entry => .imported scope entry.1 entry.2) := by
  induction entries generalizing m with
  | nil => rfl
  | cons entry entries ih => exact congrArg (_ :: ·) (ih _)

/-- The records of a function are those of its items. -/
theorem itemRecords_pushFunction (m : Module) (type : FuncType) (typeIndex : Nat)
    (locals : List LocalRun) (body : Bytes) (options : FunctionOptions) :
    (m.pushFunction typeIndex locals body options).records
      = m.itemRecords (m.functionItems type typeIndex locals body options) := by
  obtain ⟨exportName, start⟩ := options
  cases exportName <;> cases start <;> rfl

/-- An accepted declaration is recorded by its items. -/
theorem itemRecords_declare {m : Module} {d : Decl} {a : Accepted Reply}
    (h : m.declare d = .ok a) : a.records = m.itemRecords (m.items d) := by
  have houtcome := eq_outcome_of_declare h
  subst houtcome
  cases d with
  | importBatch scope entries => exact itemRecords_pushImports m scope entries
  | function type locals body options => exact itemRecords_pushFunction _ type _ locals body options
  | functionOfType typeIndex locals body options =>
      -- The items are those of a function if there is a signature at the type index.
      obtain ⟨b, hb, -⟩ := map_eq_ok.mp h
      obtain ⟨type, htype, -⟩ := addFunctionOfType_eq_ok.mp hb
      rw [items, htype]
      exact itemRecords_pushFunction m type typeIndex locals body options
  | table _ exportName | memory _ exportName | global _ _ exportName => cases exportName <;> rfl
  | importEntity _ _ _ | exportEntity _ _ _ | data _ _ | custom _ _ => rfl

/-! ### The log and the module -/

/-- The records of items that are added in two parts are those of the parts. -/
theorem itemRecords_append (m : Module) (xs ys : List Item) :
    m.itemRecords (xs ++ ys) = m.itemRecords xs ++ (m.addAll xs).itemRecords ys := by
  induction xs generalizing m with
  | nil => rfl
  | cons item xs ih =>
      rw [List.cons_append, itemRecords, ih, itemRecords, addAll_cons, List.append_assoc]

/-- If each item makes a list of the module longer by what its record tells, then the list grows by
what the records of several items tell. -/
theorem filterMap_itemRecords {α : Type} (list : Module → List α) (part? : Record → Option α)
    (hadd : ∀ m item, m.Admits item →
      list (m.add item) = list m ++ ((m.record? item).bind part?).toList)
    {m : Module} {items : List Item} (hadmits : m.AdmitsAll items) :
    list (m.addAll items) = list m ++ (m.itemRecords items).filterMap part? := by
  induction items generalizing m with
  | nil => exact (List.append_nil _).symm
  | cons item items ih =>
      rw [addAll_cons, ih hadmits.2, hadd m item hadmits.1, itemRecords, List.filterMap_append,
        List.append_assoc]
      -- An item has one record at most, and the record tells of one thing at most.
      cases m.record? item with
      | none => rfl
      | some r => cases h : part? r <;> simp [h]

/-- An entity is recorded with the index that it gets. -/
theorem entity?_record? {m : Module} {item : Item} (hadmits : m.Admits item) :
    (m.record? item).bind Record.entity? = item.kind?.map fun kind => (kind, m.count kind) := by
  cases item with
  | imported scope name type =>
      -- Imports are numbered among themselves, but nothing of their kind is defined yet.
      show some (type.kind, m.imported.of type.kind) = some (type.kind, m.count type.kind)
      rw [imported_of_admits hadmits]
  | _ => rfl

/-- The indices of a kind are the numbers that are recorded. -/
theorem range_count_add {m : Module} {item : Item} (hadmits : m.Admits item)
    (kind : ExternalKind) :
    List.range ((m.add item).count kind)
      = List.range (m.count kind) ++ ((m.record? item).bind (Record.index? kind)).toList := by
  have hrecorded : (m.record? item).bind (Record.index? kind)
      = if item.kind? = some kind then some (m.count kind) else none := by
    show (m.record? item).bind (fun r => r.entity?.bind _) = _
    rw [← Option.bind_assoc, entity?_record? hadmits]
    cases item.kind? <;> simp +contextual
  rw [hrecorded, count_add]
  by_cases hkind : item.kind? = some kind
  · rw [if_pos hkind, if_pos hkind, List.range_succ]
    rfl
  · rw [if_neg hkind, if_neg hkind]
    exact (List.append_nil _).symm

/-- The exports that the records tell are those among the items. -/
theorem export?_record? (m : Module) (item : Item) :
    (m.record? item).bind Record.export? = item.export? := by
  cases item <;> rfl

/-- Data segments are numbered as they are recorded. -/
theorem range_data_add (m : Module) (item : Item) :
    List.range (m.add item).data.size
      = List.range m.data.size ++ ((m.record? item).bind Record.segment?).toList := by
  cases item with
  | data offset bytes =>
      show List.range (m.data.push _).size = _
      rw [Array.size_push, List.range_succ]
      rfl
  | _ => exact (List.append_nil _).symm

/-- The records of items are all of the level for debugging. -/
theorem level_of_mem_itemRecords {m : Module} {items : List Item} {r : Record}
    (h : r ∈ m.itemRecords items) : r.level = .debug := by
  induction items generalizing m with
  | nil => exact absurd h List.not_mem_nil
  | cons item items ih =>
      obtain hfirst | hrest := List.mem_append.mp h
      · have hrecord : m.record? item = some r := Option.mem_toList.mp hfirst
        cases item with
        | signature _ | start _ | custom _ _ => exact absurd hrecord nofun
        | _ =>
            rw [← Option.some.inj hrecord]
            rfl
      · exact ih hrest

end Module

namespace Session

/-- A call adds its records to the log. -/
theorem log_after (s : Session) (d : Decl) :
    (s.after d).log.toList = s.log.toList ++ (s.call d).records := by
  rw [Call.records, answer_call]
  cases h : s.module.declare d with
  | ok a =>
      rw [after_of_declare h, Array.toList_appendList, Module.records_declare h]
      rfl
  | error e =>
      rw [after_of_refused h]
      exact (List.append_nil _).symm

/-- The log of a run has the records of its calls, in order. -/
theorem log_eq_flatMap (ds : List Decl) :
    (start.run ds).log.toList = (start.calls ds).flatMap Call.records :=
  start.list_run (fun s => s.log.toList) Call.records log_after ds

/-- A call is recorded by what it adds. -/
theorem itemRecords_call (s : Session) (d : Decl) :
    (s.call d).records = s.module.itemRecords (s.module.additions d) := by
  rw [Call.records, answer_call, Module.additions]
  cases h : s.module.declare d with
  | ok a => exact (Module.records_declare h).symm.trans (Module.itemRecords_declare h)
  | error e => rfl

/-- The log of a run has the records of what the run adds, in order. -/
theorem log_eq_itemRecords {s : Session} (h : s.module.types.Lawful) (ds : List Decl) :
    (s.run ds).log.toList = s.log.toList ++ s.module.itemRecords (s.module.trace ds) := by
  induction ds generalizing s with
  | nil => exact (List.append_nil _).symm
  | cons d ds ih =>
      -- The call leaves the module that its items are added to, and the rest starts from there.
      obtain ⟨hadmits, hafter⟩ := Module.after_eq_addAll h d
      have hmodule : (s.after d).module = s.module.addAll (s.module.additions d) := by
        rw [module_after, hafter]
      have hlawful : (s.after d).module.types.Lawful :=
        hmodule ▸ Module.types_lawful_addAll h hadmits
      rw [run_cons, ih hlawful, log_after, itemRecords_call, Module.trace,
        Module.itemRecords_append, hafter, ← hmodule, List.append_assoc]

/-- What the log of a run tells of a list that grows with its records is that list. -/
theorem filterMap_log {α : Type} (list : Module → List α) (part? : Record → Option α)
    (hadd : ∀ m item, m.Admits item →
      list (m.add item) = list m ++ ((m.record? item).bind part?).toList)
    (hempty : list .empty = []) (ds : List Decl) :
    (start.run ds).log.toList.filterMap part? = list (start.run ds).module := by
  obtain ⟨hadmits, hrun⟩ := Module.run_eq_addAll Module.wellFormed_empty.types ds
  rw [log_eq_itemRecords Module.wellFormed_empty.types, module_run]
  show (Module.empty.itemRecords (Module.empty.trace ds)).filterMap part?
    = list (Module.empty.run ds)
  rw [hrun, Module.filterMap_itemRecords list part? hadd hadmits, hempty, List.nil_append]

/-- The log is an account of what has been declared, custom sections aside. The log of a run has the
records of its calls in order: of an accepted call, a record for each entity that it declares, with
the index that it answers, and behind it one for the export, or one for a data segment; of a refused
call, a batch of imports or any other, none. Held against the module, the indices of each kind are
recorded in order and once each, and so are the exports and the numbers of the data segments. All
records are of the level for debugging. -/
theorem log_run (ds : List Decl) :
    (start.run ds).log.toList = (start.calls ds).flatMap Call.records ∧
    (∀ kind, (start.run ds).log.toList.filterMap (Record.index? kind)
      = List.range ((start.run ds).module.count kind)) ∧
    (start.run ds).log.toList.filterMap Record.export? = (start.run ds).module.exports.toList ∧
    (start.run ds).log.toList.filterMap Record.segment?
      = List.range (start.run ds).module.data.size ∧
    ∀ r ∈ (start.run ds).log, r.level = .debug := by
  refine ⟨log_eq_flatMap ds, ?_, ?_, ?_, ?_⟩
  · intro kind
    have hempty : List.range (Module.empty.count kind) = [] := by cases kind <;> rfl
    exact filterMap_log (fun m => List.range (m.count kind)) (Record.index? kind)
      (fun _ _ hadmits => Module.range_count_add hadmits kind) hempty ds
  · refine filterMap_log (fun m => m.exports.toList) Record.export? ?_ rfl ds
    intro m item _
    rw [Module.export?_record?]
    exact Module.exports_add m item
  · exact filterMap_log (fun m => List.range m.data.size) Record.segment?
      (fun m item _ => Module.range_data_add m item) rfl ds
  · intro r hr
    rw [← Array.mem_toList_iff, log_eq_itemRecords Module.wellFormed_empty.types] at hr
    exact Module.level_of_mem_itemRecords hr

/-- A custom section is added, and nothing is recorded of it. -/
theorem custom_not_recorded :
    (start.call (.custom "note" [])).answer = .ok .done ∧
      (start.run [.custom "note" []]).module.customs.size = 1 ∧
      (start.run [.custom "note" []]).log = #[] :=
  ⟨rfl, rfl, rfl⟩

end Session

end WasmAssembly
