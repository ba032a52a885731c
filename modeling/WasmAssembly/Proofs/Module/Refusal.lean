import WasmAssembly.Proofs.Module.Intact
import WasmAssembly.Proofs.Module.Session

/-!
# `WasmAssembly.Proofs.Module.Refusal`: nothing is refused without need

If what a declaration appends would leave a module intact, then every check of the declaration
passes: one lemma for each sequence of checks, which finds what was checked in the module that
results. So each refusal prevents harm, and as all checks come before the first change, it leaves
no trace (`refused_only_if_harmful`).
-/

set_option autoImplicit false

namespace WasmAssembly

namespace Module

variable {m n : Module}

/-! ### Exports -/

/-- A name that can be appended to the names of the exports is free. -/
theorem nameFree_of_nodup {name : String} {kind : ExternalKind} {index : Nat}
    (h : ((m.exports.push ⟨name, kind, index⟩).toList.map (·.name)).Nodup) : m.NameFree name := by
  rw [Array.toList_push, List.map_append, List.map_singleton, List.nodup_append] at h
  obtain ⟨-, -, hdistinct⟩ := h
  intro e he
  exact hdistinct e.name (List.mem_map_of_mem (Array.mem_toList_iff.mpr he)) name
    (List.mem_singleton_self name)

/-- If no name is exported twice together with an entity, its name was free. -/
theorem nameFree_of_exportedAs {a : Accepted Nat} {kind : ExternalKind}
    {exportName : Option String} (h : (a.exportedAs kind exportName).module.Admissible) :
    ∀ name ∈ exportName, a.module.NameFree name := by
  rintro name ⟨⟩
  exact nameFree_of_nodup h.exportNames

/-- An export passes its checks if it breaks no rule. -/
theorem checkExport_of_admissible {name : String} {kind : ExternalKind} {index : Nat}
    (h : (m.pushExport name kind index).module.Admissible) :
    m.checkExport name kind index = .ok () :=
  checkExport_eq_ok.mpr
    ⟨nameFree_of_nodup h.exportNames, h.exportIndices ⟨name, kind, index⟩ Array.mem_push_self⟩

/-! ### Imports -/

/-- A batch appends an import for each entry, of its kind and with its sizes. -/
theorem imports_pushImports (m : Module) (scope : String)
    (entries : List (String × ExternType FuncType)) :
    ∃ new : List Import,
      (m.pushImports scope entries).module.imports.toList = m.imports.toList ++ new ∧
        ∀ entry ∈ entries, ∃ i ∈ new, i.kind = entry.2.kind ∧
          (i.type.LimitsOk ↔ entry.2.LimitsOk) := by
  induction entries generalizing m with
  | nil => exact ⟨[], (List.append_nil _).symm, nofun⟩
  | cons entry entries ih =>
      obtain ⟨name, type⟩ := entry
      obtain ⟨new, himports, hnew⟩ := ih (m.pushImport scope name type).module
      let first : Import := ⟨scope, name, m.imported.of type.kind, (registerType m.types type).1⟩
      have hfirst : (m.pushImport scope name type).module.imports = m.imports.push first := rfl
      refine ⟨first :: new, ?_, ?_⟩
      · rw [hfirst, Array.toList_push, List.append_assoc, List.singleton_append] at himports
        exact himports
      · intro entry hentry
        obtain rfl | hrest := List.mem_cons.mp hentry
        · exact ⟨first, List.mem_cons_self, kind_registerType m.types type,
            limitsOk_registerType m.types type⟩
        · obtain ⟨i, hi, hkind⟩ := hnew entry hrest
          exact ⟨i, List.mem_cons_of_mem first hi, hkind⟩

/-- A batch adds its entries to the numbers of entities. -/
theorem count_pushImports (m : Module) (scope : String)
    (entries : List (String × ExternType FuncType)) (kind : ExternalKind) :
    (m.pushImports scope entries).module.count kind
      = m.count kind + entries.countP (·.2.kind = kind) := by
  rw [module_pushImports, count_addAll, List.countP_map]
  simp only [Function.comp_def, Item.kind?, Item.entity?, Option.map_some, Option.some.injEq]

/-- What a module defines is not imported. -/
theorem ne_imported_of_mem_definitions {kind : ExternalKind} {occupant : Occupant}
    (h : occupant ∈ m.definitions kind) (i : Import) : occupant ≠ .imported i := by
  cases kind <;>
  · obtain ⟨_, _, rfl⟩ := List.mem_map.mp h
    exact nofun

/-- An import takes the index of what is defined first among its kind, so where no index may be
moved nothing of the kind is defined. -/
theorem definedCount_eq_zero_of_intact {new : List Import} {i : Import} (h : m.Intact n)
    (himports : n.imports.toList = m.imports.toList ++ new) (hi : i ∈ new) :
    m.definedCount i.kind = 0 := by
  rw [← length_definitions, List.length_eq_zero_iff]
  cases hdefinitions : m.definitions i.kind with
  | nil => rfl
  | cons occupant others =>
      -- The two occupants of that index, before and after.
      have hm : (m.occupants i.kind)[(m.imports.toList.filter (·.kind = i.kind)).length]?
          = some occupant := by
        rw [occupants, hdefinitions, List.getElem?_append_right (by simp)]
        simp
      have hmem : i ∈ new.filter (·.kind = i.kind) :=
        List.mem_filter.mpr ⟨hi, decide_eq_true rfl⟩
      obtain ⟨first, rest, hfilter⟩ := List.exists_cons_of_ne_nil (List.ne_nil_of_mem hmem)
      have hn : (n.occupants i.kind)[(m.imports.toList.filter (·.kind = i.kind)).length]?
          = some (.imported first) := by
        rw [occupants, himports, List.filter_append, hfilter]
        simp
      have hsame := h.indices _ _ _ hm
      rw [hn] at hsame
      have hdefined : occupant ∈ m.definitions i.kind :=
        hdefinitions ▸ List.mem_cons_self
      exact absurd (Option.some.inj hsame).symm (ne_imported_of_mem_definitions hdefined first)

/-- A memory counts once for the check of a batch. -/
theorem toNat_hasMemory_le (m : Module) : m.hasMemory.toNat ≤ m.count .memory := by
  cases hmemory : m.hasMemory with
  | false => exact Nat.zero_le _
  | true => exact of_decide_eq_true hmemory

/-- A batch passes its checks if its imports, taken together, do no harm. -/
theorem checkImports_of_intact {scope : String} {entries : List (String × ExternType FuncType)}
    (h : m.Intact (m.pushImports scope entries).module) :
    m.checkImports scope m.hasMemory entries = .ok () := by
  obtain ⟨new, himports, hnew⟩ := imports_pushImports m scope entries
  refine checkImports_eq_ok.mpr ⟨?_, ?_⟩
  · intro entry hentry
    obtain ⟨i, hi, hkind, hlimits⟩ := hnew entry hentry
    have hmem : i ∈ (m.pushImports scope entries).module.imports := by
      rw [← Array.mem_toList_iff, himports]
      exact List.mem_append_right _ hi
    refine ⟨hlimits.mp (h.rules.importLimits i hmem), fun _ => ?_⟩
    rw [← hkind]
    exact definedCount_eq_zero_of_intact h himports hi
  · have hcount := h.rules.oneMemory
    rw [count_pushImports] at hcount
    exact Nat.le_trans (Nat.add_le_add_right (toNat_hasMemory_le m) _) hcount

/-! ### Functions -/

/-- A function is appended to the functions, with its end marker. -/
theorem functions_pushFunction (m : Module) (typeIndex : Nat) (locals : List LocalRun)
    (body : Bytes) (options : FunctionOptions) :
    (m.pushFunction typeIndex locals body options).module.functions
      = m.functions.push ⟨typeIndex, locals, body ++ [endMarker]⟩ := by
  obtain ⟨exportName, start⟩ := options
  cases exportName <;> cases start <;> rfl

/-- The function that is appended is there. -/
theorem mem_functions_pushFunction (m : Module) (typeIndex : Nat) (locals : List LocalRun)
    (body : Bytes) (options : FunctionOptions) :
    ⟨typeIndex, locals, body ++ [endMarker]⟩
      ∈ (m.pushFunction typeIndex locals body options).module.functions := by
  rw [functions_pushFunction]
  exact Array.mem_push_self

/-- A function does not change the signatures. -/
theorem types_pushFunction (m : Module) (typeIndex : Nat) (locals : List LocalRun)
    (body : Bytes) (options : FunctionOptions) :
    (m.pushFunction typeIndex locals body options).module.types = m.types := by
  obtain ⟨exportName, start⟩ := options
  cases exportName <;> cases start <;> rfl

/-- A function does not change the numbers of imports. -/
theorem imported_pushFunction (m : Module) (typeIndex : Nat) (locals : List LocalRun)
    (body : Bytes) (options : FunctionOptions) :
    (m.pushFunction typeIndex locals body options).module.imported = m.imported := by
  obtain ⟨exportName, start⟩ := options
  cases exportName <;> cases start <;> rfl

/-- A function that is to be the start is the start. -/
theorem start_pushFunction (m : Module) (typeIndex : Nat) (locals : List LocalRun) (body : Bytes)
    {options : FunctionOptions} (hstart : options.start = true) :
    (m.pushFunction typeIndex locals body options).module.start = some (m.count .func) := by
  obtain ⟨exportName, start⟩ := options
  cases hstart
  rfl

/-- The function that is appended has the next index. -/
theorem resolve_pushFunction (m : Module) (typeIndex : Nat) (locals : List LocalRun)
    (body : Bytes) (options : FunctionOptions) :
    (m.pushFunction typeIndex locals body options).module.resolve .func (m.count .func)
      = (m.types.get? typeIndex).map .func := by
  have hlast : (m.pushFunction typeIndex locals body options).module.functions[m.functions.size]?
      = some ⟨typeIndex, locals, body ++ [endMarker]⟩ := by
    rw [functions_pushFunction, Array.getElem?_push_size]
  have hresolve := resolve_defined hlast
  rwa [imported_pushFunction, types_pushFunction] at hresolve

/-- An index that can be the start is that of a function. -/
theorem CanStartAt.lt_count {index : Nat} (h : m.CanStartAt index) : index < m.count .func := by
  obtain ⟨pos, f, rfl, hf, -⟩ := h
  exact Nat.add_lt_add_left (Array.getElem?_eq_some_iff.mp hf).1 _

/-- A function passes its checks if it does no harm. That a start function is there can only be
seen from its being replaced. -/
theorem checkFunction_of_intact {typeIndex : Nat} {type : FuncType} {locals : List LocalRun}
    {body : Bytes} {options : FunctionOptions}
    (hm : ∀ index, m.start = some index → index < m.count .func)
    (htype : m.types.get? typeIndex = some type)
    (h : m.Intact (m.pushFunction typeIndex locals body options).module) :
    m.checkFunction type locals options = .ok () := by
  have hmem := mem_functions_pushFunction m typeIndex locals body options
  refine checkFunction_eq_ok.mpr ⟨?_, ?_, ?_⟩
  · refine h.rules.functionLocals _ hmem type ?_
    rw [types_pushFunction, htype]
  · intro hstart
    have hnew := start_pushFunction m typeIndex locals body hstart
    constructor
    · -- A start that was there would be replaced by a function that was not.
      cases hold : m.start with
      | none => rfl
      | some index =>
          have hkept := h.start index hold
          rw [hnew] at hkept
          exact absurd (hm index hold) (Option.some.inj hkept ▸ Nat.lt_irrefl _)
    · have hempty := h.rules.startSignature _ hnew
      rw [resolve_pushFunction, htype, Option.map_some] at hempty
      exact ExternType.func.inj (Option.some.inj hempty)
  · obtain ⟨exportName, start⟩ := options
    rintro name ⟨⟩
    cases start <;> exact nameFree_of_nodup h.rules.exportNames

/-! ### Tables, memories, globals and data -/

/-- A table passes its checks if it breaks no rule. -/
theorem checkTable_of_admissible {type : TableType} {exportName : Option String}
    (h : (m.pushTable type exportName).module.Admissible) :
    m.checkTable type exportName = .ok () := by
  have hmem : type ∈ (m.pushTable type exportName).module.tables := by
    cases exportName <;> exact Array.mem_push_self
  exact checkTable_eq_ok.mpr ⟨h.tableLimits type hmem, nameFree_of_exportedAs h⟩

/-- A memory passes its checks if it breaks no rule. -/
theorem checkMemory_of_admissible {limits : Limits} {exportName : Option String}
    (h : (m.pushMemory limits exportName).module.Admissible) :
    m.checkMemory limits exportName = .ok () := by
  have hmem : limits ∈ (m.pushMemory limits exportName).module.memories := by
    cases exportName <;> exact Array.mem_push_self
  have hcount : (m.pushMemory limits exportName).module.count .memory = m.count .memory + 1 := by
    cases exportName <;> exact count_add m (.memory limits) .memory
  have hone := h.oneMemory
  exact checkMemory_eq_ok.mpr
    ⟨by omega, h.memoryLimits limits hmem, nameFree_of_exportedAs h⟩

/-- An initializer is judged by the imported globals and the number of functions alone. -/
theorem Initializes.of_eq {init : ConstExpr} {type : ValType} (h : n.Initializes init type)
    (himports : n.imports = m.imports) (hcount : n.count .func = m.count .func) :
    m.Initializes init type := by
  cases h with
  | plain htype hclosed => exact .plain htype hclosed
  | globalGet hglobal hconst =>
      rw [importedGlobal?, himports] at hglobal
      exact .globalGet hglobal hconst
  | refFunc hindex => exact .refFunc (hcount ▸ hindex)

/-- A global passes its checks if it breaks no rule. -/
theorem checkGlobal_of_admissible {type : GlobalType} {init : ConstExpr}
    {exportName : Option String} (h : (m.pushGlobal type init exportName).module.Admissible) :
    m.checkGlobal type init exportName = .ok () := by
  have hmem : (⟨type, init⟩ : Global) ∈ (m.pushGlobal type init exportName).module.globals := by
    cases exportName <;> exact Array.mem_push_self
  have himports : (m.pushGlobal type init exportName).module.imports = m.imports := by
    cases exportName <;> rfl
  have hcount : (m.pushGlobal type init exportName).module.count .func = m.count .func := by
    cases exportName <;> rfl
  exact checkGlobal_eq_ok.mpr
    ⟨(h.globalInits _ hmem).of_eq himports hcount, nameFree_of_exportedAs h⟩

/-- Data that breaks no rule has a memory. -/
theorem hasMemory_of_admissible {offset : UInt32} {bytes : Bytes}
    (h : (m.pushData offset bytes).module.Admissible) : 0 < m.count .memory :=
  h.dataMemory Array.push_ne_empty

/-! ### Declarations -/

/-- A declaration is accepted if what it appends leaves the module intact. -/
theorem declare_of_intact (hm : m.WellFormed) {d : Decl} (h : m.Intact (m.appended d)) :
    ∃ a, m.declare d = .ok a := by
  have hstart : ∀ index, m.start = some index → index < m.count .func :=
    fun index hindex => (hm.startFunction index hindex).lt_count
  cases d with
  | importEntity scope name type =>
      exact ⟨_, map_eq_ok.mpr ⟨_, addImport_eq_ok.mpr ⟨checkImports_of_intact h, rfl⟩, rfl⟩⟩
  | importBatch scope entries =>
      exact ⟨_, map_eq_ok.mpr ⟨_, addImports_eq_ok.mpr ⟨checkImports_of_intact h, rfl⟩, rfl⟩⟩
  | function type locals body options =>
      have htype := TypeTable.get?_register hm.types type
      have hcheck : m.checkFunction type locals options = .ok () :=
        checkFunction_of_intact (m := { m with types := (m.types.register type).2 }) hstart htype
          ⟨h.rules, h.indices, h.start⟩
      exact ⟨_, map_eq_ok.mpr ⟨_, addFunction_eq_ok.mpr ⟨hcheck, rfl⟩, rfl⟩⟩
  | functionOfType typeIndex locals body options =>
      -- The type index of the function that would be appended is one of the table.
      have hmem := mem_functions_pushFunction m typeIndex locals body options
      have hlt : typeIndex < (m.pushFunction typeIndex locals body options).module.types.size :=
        h.rules.functionTypes _ hmem
      rw [types_pushFunction] at hlt
      have htype := TypeTable.get?_eq_some_of_lt hlt
      have hcheck := checkFunction_of_intact hstart htype h
      exact ⟨_, map_eq_ok.mpr ⟨_, addFunctionOfType_eq_ok.mpr ⟨_, htype, hcheck, rfl⟩, rfl⟩⟩
  | table type exportName =>
      have hcheck := checkTable_of_admissible h.rules
      exact ⟨_, map_eq_ok.mpr ⟨_, addTable_eq_ok.mpr ⟨hcheck, rfl⟩, rfl⟩⟩
  | memory limits exportName =>
      have hcheck := checkMemory_of_admissible h.rules
      exact ⟨_, map_eq_ok.mpr ⟨_, addMemory_eq_ok.mpr ⟨hcheck, rfl⟩, rfl⟩⟩
  | global type init exportName =>
      have hcheck := checkGlobal_of_admissible h.rules
      exact ⟨_, map_eq_ok.mpr ⟨_, addGlobal_eq_ok.mpr ⟨hcheck, rfl⟩, rfl⟩⟩
  | exportEntity name kind index =>
      have hcheck := checkExport_of_admissible h.rules
      exact ⟨_, map_eq_ok.mpr ⟨_, addExport_eq_ok.mpr ⟨hcheck, rfl⟩, rfl⟩⟩
  | data offset bytes =>
      have hmemory := hasMemory_of_admissible h.rules
      exact ⟨_, map_eq_ok.mpr ⟨_, addData_eq_ok.mpr ⟨hmemory, rfl⟩, rfl⟩⟩
  | custom name bytes => exact ⟨_, rfl⟩

end Module

namespace Session

/-- In every session that declarations lead to: a refused declaration leaves the session as it was,
and what it appends would not have left the module intact. Whatever does leave it intact is accepted
and appended. -/
theorem refused_only_if_harmful (ds : List Decl) (d : Decl) :
    (∀ e s', (Command.perform d).run (start.run ds) = .error e s' →
      s' = start.run ds ∧
        ¬(start.run ds).module.Intact ((start.run ds).module.appended d)) ∧
    ((start.run ds).module.Intact ((start.run ds).module.appended d) ↔
      ∃ reply s', (Command.perform d).run (start.run ds) = .ok reply s' ∧
        s'.module = (start.run ds).module.appended d) := by
  have hm : (start.run ds).module.WellFormed := wellFormed_module ds
  -- Nothing but this is needed of the session.
  generalize start.run ds = s at hm
  rw [Command.run_perform]
  cases hd : s.module.declare d with
  | ok a =>
      constructor
      · intro e s' hrefused
        exact absurd hrefused nofun
      · constructor
        · intro _
          exact ⟨a.value, ⟨a.module, s.log ++ a.records⟩, rfl, Module.module_of_declare hd⟩
        · intro _
          exact Module.intact_of_declare hm hd
  | error e =>
      have hharm : ¬s.module.Intact (s.module.appended d) := by
        intro hintact
        obtain ⟨a, ha⟩ := Module.declare_of_intact hm hintact
        rw [hd] at ha
        exact absurd ha nofun
      constructor
      · intro e' s' hrefused
        have hsame : s = s' := (EStateM.Result.error.inj hrefused).2
        exact ⟨hsame.symm, hharm⟩
      · constructor
        · intro hintact
          exact absurd hintact hharm
        · rintro ⟨reply, s', haccepted, -⟩
          exact absurd haccepted nofun

/-- The signature of a function that is refused is not registered. -/
example : (Command.perform (.function ⟨[.i32], []⟩ [] [] ⟨none, true⟩)).run start
    = .error (.invalidStartSignature ⟨[.i32], []⟩) start := rfl

end Session

end WasmAssembly
