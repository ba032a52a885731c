import WasmAssembly.Proofs.Checks
import WasmAssembly.Proofs.Module.Admissible

/-!
# `WasmAssembly.Proofs.Module.Rules`: what the checks of a declaration say

Each check of `Module.Declare` gives an error or nothing. For each of them a lemma says when it
gives nothing, as one of the rules of `Module.Admissible` or as another statement about the module.
Proofs about declarations use these and never look into a check.

The last part puts the checks of each declaration together: what it takes to be accepted, and what
is given back then.
-/

set_option autoImplicit false

namespace WasmAssembly

namespace Limits

/-- The check of the order of sizes is the rule. -/
theorem isOrdered_iff {l : Limits} : l.isOrdered = true ↔ l.Ordered := by
  simp only [isOrdered, Option.all_eq_true, decide_eq_true_eq, Ordered, Option.mem_def]

/-- The check of sizes against a bound is the rule. -/
theorem isWithin_iff {l : Limits} {bound : UInt32} : l.isWithin bound = true ↔ l.AtMost bound := by
  simp only [isWithin, Bool.and_eq_true, Option.all_eq_true, decide_eq_true_eq, AtMost,
    Option.mem_def]

end Limits

namespace Module

/-- No export has a name. -/
def NameFree (m : Module) (name : String) : Prop :=
  ∀ e ∈ m.exports, e.name ≠ name

/-! ### Limits -/

/-- Sizes are accepted if they are in order and not above the bound, if there is one. -/
theorem checkLimits_eq_ok {limits : Limits} {cap : Option UInt32} :
    checkLimits limits cap = .ok () ↔ limits.Ordered ∧ ∀ bound ∈ cap, limits.AtMost bound := by
  rw [checkLimits, require_eq_ok, Limits.isOrdered_iff, Option.all_eq_true]
  simp only [Limits.isWithin_iff, Option.mem_def]

/-- Sizes without a bound are accepted if they are in order. -/
theorem checkLimits_none_eq_ok {limits : Limits} :
    checkLimits limits none = .ok () ↔ limits.Ordered := by
  rw [checkLimits_eq_ok]
  exact and_iff_left nofun

/-- The sizes of a memory are accepted if they are in order and not above 65536 pages. -/
theorem checkLimits_memory_eq_ok {limits : Limits} :
    checkLimits limits (some maxMemoryPages) = .ok () ↔ limits.Ordered ∧ limits.AtMost 65536 := by
  rw [checkLimits_eq_ok]
  simp only [Option.mem_def, Option.some.injEq, forall_eq', maxMemoryPages]

/-- The sizes of an entity are accepted if they keep their rule. -/
theorem checkEntityLimits_eq_ok {σ : Type} {type : ExternType σ} :
    checkEntityLimits type = .ok () ↔ type.LimitsOk := by
  cases type with
  | func signature => exact ⟨fun _ => trivial, fun _ => rfl⟩
  | table type => exact checkLimits_none_eq_ok
  | memory limits => exact checkLimits_memory_eq_ok
  | global type => exact ⟨fun _ => trivial, fun _ => rfl⟩

/-! ### Imports -/

variable {m : Module}

/-- An import is accepted if its sizes keep their rule and nothing of its kind is defined, memories
apart. -/
theorem checkImport_eq_ok {scope name : String} {type : ExternType FuncType} :
    m.checkImport scope name type = .ok () ↔
      type.LimitsOk ∧ (type.kind ≠ .memory → m.definedCount type.kind = 0) := by
  rw [checkImport, check_bind_eq_ok, checkEntityLimits_eq_ok, forbid_eq_ok]
  exact and_congr_right fun _ => Decidable.not_and_not_right

/-- A memory is accepted if there is none. -/
theorem checkOnlyMemory_eq_ok {σ : Type} {hasMemory : Bool} {type : ExternType σ} :
    checkOnlyMemory hasMemory type = .ok () ↔ (type.kind = .memory → hasMemory = false) := by
  rw [checkOnlyMemory, forbid_eq_ok, not_and, Bool.not_eq_true]

/-- The checks of a batch, one entry after the other. -/
theorem checkImports_cons_eq_ok {scope name : String} {type : ExternType FuncType}
    {rest : List (String × ExternType FuncType)} {hasMemory : Bool} :
    m.checkImports scope hasMemory ((name, type) :: rest) = .ok () ↔
      m.checkImport scope name type = .ok () ∧ checkOnlyMemory hasMemory type = .ok () ∧
        m.checkImports scope (hasMemory || type.kind == .memory) rest = .ok () := by
  rw [checkImports, check_bind_eq_ok, check_bind_eq_ok]

/-- A batch is checked entry by entry, except that the memories in it are counted together. -/
theorem checkImports_eq_ok {scope : String} {entries : List (String × ExternType FuncType)}
    {hasMemory : Bool} :
    m.checkImports scope hasMemory entries = .ok () ↔
      (∀ entry ∈ entries, entry.2.LimitsOk ∧
        (entry.2.kind ≠ .memory → m.definedCount entry.2.kind = 0)) ∧
          hasMemory.toNat + entries.countP (·.2.kind = .memory) ≤ 1 := by
  induction entries generalizing hasMemory with
  | nil => exact ⟨fun _ => ⟨nofun, hasMemory.toNat_le⟩, fun _ => rfl⟩
  | cons entry entries ih =>
      obtain ⟨name, type⟩ := entry
      rw [checkImports_cons_eq_ok, checkImport_eq_ok, checkOnlyMemory_eq_ok, ih,
        List.forall_mem_cons, List.countP_cons]
      -- A memory asks for none before it, and counts as one for those behind it.
      have hcounted : (type.kind = .memory → hasMemory = false) ∧
          (hasMemory || type.kind == .memory).toNat + entries.countP (·.2.kind = .memory) ≤ 1 ↔
            hasMemory.toNat + (entries.countP (·.2.kind = .memory) +
              if decide (type.kind = .memory) = true then 1 else 0) ≤ 1 := by
        generalize entries.countP _ = others
        by_cases hkind : type.kind = .memory
        · cases hasMemory <;> simp [hkind, Nat.add_comm]
        · simp [hkind, beq_eq_false_iff_ne.mpr hkind]
      constructor
      · rintro ⟨hentry, honly, hrest, hcount⟩
        exact ⟨⟨hentry, hrest⟩, hcounted.mp ⟨honly, hcount⟩⟩
      · rintro ⟨⟨hentry, hrest⟩, hcount⟩
        obtain ⟨honly, hcount⟩ := hcounted.mpr hcount
        exact ⟨hentry, honly, hrest, hcount⟩

/-! ### Exports and indices -/

/-- An export name is accepted if it is free. -/
theorem checkExportName_eq_ok {name : String} :
    m.checkExportName name = .ok () ↔ m.NameFree name := by
  rw [checkExportName, forbid_eq_ok, Bool.not_eq_true, Array.any_eq_false']
  simp only [beq_iff_eq, NameFree, ne_eq]

/-- An export name that may be missing is accepted if it is missing or free. -/
theorem checkExportName?_eq_ok {exportName : Option String} :
    m.checkExportName? exportName = .ok () ↔ ∀ name ∈ exportName, m.NameFree name := by
  cases exportName with
  | none => exact ⟨fun _ _ h => absurd h nofun, fun _ => rfl⟩
  | some name =>
      rw [checkExportName?, checkExportName_eq_ok]
      constructor
      · intro h taken htaken
        rwa [← Option.some.inj htaken]
      · intro h
        exact h name rfl

/-- An index is accepted if there is an entity for it. -/
theorem checkIndex_eq_ok {kind : ExternalKind} {index : Nat} :
    m.checkIndex kind index = .ok () ↔ index < m.count kind :=
  require_eq_ok

/-- An export is accepted if its name is free and its index has an entity. -/
theorem checkExport_eq_ok {name : String} {kind : ExternalKind} {index : Nat} :
    m.checkExport name kind index = .ok () ↔ m.NameFree name ∧ index < m.count kind := by
  rw [checkExport, check_bind_eq_ok, checkExportName_eq_ok, checkIndex_eq_ok]

/-! ### Functions -/

/-- The locals in some runs are those of the runs, added up. -/
theorem total_eq_sum (locals : List LocalRun) :
    LocalRun.total locals = (locals.map (·.count.toNat)).sum := by
  induction locals with
  | nil => rfl
  | cons run locals ih => rw [LocalRun.total, ih, List.map_cons, List.sum_cons]

/-- The number of locals is not above the most there can be if it has 32 bits. -/
theorem localCount_le_iff {type : FuncType} {locals : List LocalRun} :
    localCount type locals ≤ maxLocals ↔ LocalsOk type locals := by
  rw [localCount, total_eq_sum]
  exact Iff.rfl

/-- Locals are accepted if they can be numbered. -/
theorem checkLocals_eq_ok {type : FuncType} {locals : List LocalRun} :
    checkLocals type locals = .ok () ↔ LocalsOk type locals := by
  rw [checkLocals, require_eq_ok, localCount_le_iff]

/-- A signature is told to be empty if it has neither parameters nor results. -/
theorem isEmpty_iff {type : FuncType} : type.isEmpty = true ↔ type = .empty := by
  obtain ⟨params, results⟩ := type
  rw [FuncType.isEmpty, Bool.and_eq_true, List.isEmpty_iff, List.isEmpty_iff, FuncType.empty,
    FuncType.mk.injEq]

/-- A start is accepted if there is none, and the function has neither parameters nor results. -/
theorem checkStart_eq_ok {type : FuncType} :
    m.checkStart type = .ok () ↔ m.start = none ∧ type = .empty := by
  rw [checkStart]
  cases m.start with
  | some existing => exact ⟨nofun, fun h => absurd h.1 nofun⟩
  | none =>
      rw [require_eq_ok, isEmpty_iff]
      exact ⟨fun h => ⟨rfl, h⟩, fun h => h.2⟩

/-- A function is accepted if its locals can be numbered, it can be the start if it is to be, and
its export name is free. -/
theorem checkFunction_eq_ok {type : FuncType} {locals : List LocalRun}
    {options : FunctionOptions} :
    m.checkFunction type locals options = .ok () ↔
      LocalsOk type locals ∧
        (options.start = true → m.start = none ∧ type = .empty) ∧
          ∀ name ∈ options.exportName, m.NameFree name := by
  rw [checkFunction, check_bind_eq_ok, checkLocals_eq_ok]
  -- Whether the start is checked depends on the options.
  refine and_congr_right ?_
  intro _
  cases options.start with
  | false =>
      show m.checkExportName? options.exportName = .ok () ↔ _
      rw [checkExportName?_eq_ok]
      exact ⟨fun h => ⟨nofun, h⟩, fun h => h.2⟩
  | true =>
      show (m.checkStart type >>= fun _ => m.checkExportName? options.exportName) = .ok () ↔ _
      rw [check_bind_eq_ok, checkStart_eq_ok, checkExportName?_eq_ok]
      exact ⟨fun h => ⟨fun _ => h.1, h.2⟩, fun h => ⟨h.1 rfl, h.2⟩⟩

/-! ### Tables, memories and globals -/

/-- A table is accepted if its sizes are in order and its export name is free. -/
theorem checkTable_eq_ok {type : TableType} {exportName : Option String} :
    m.checkTable type exportName = .ok () ↔
      type.limits.Ordered ∧ ∀ name ∈ exportName, m.NameFree name := by
  rw [checkTable, check_bind_eq_ok, checkLimits_none_eq_ok, checkExportName?_eq_ok]

/-- A module is told to have no memory if there is none, imported or defined. -/
theorem hasMemory_eq_false : m.hasMemory = false ↔ m.count .memory = 0 := by
  rw [hasMemory, decide_eq_false_iff_not, Nat.not_lt, Nat.le_zero]

/-- A memory is accepted if it is the only one, its sizes keep their rule and its export name is
free. -/
theorem checkMemory_eq_ok {limits : Limits} {exportName : Option String} :
    m.checkMemory limits exportName = .ok () ↔
      m.count .memory = 0 ∧ (ExternType.memory limits : ExternType Nat).LimitsOk ∧
        ∀ name ∈ exportName, m.NameFree name := by
  rw [checkMemory, ← hasMemory_eq_false]
  cases m.hasMemory with
  | true => exact ⟨nofun, fun h => absurd h.1 nofun⟩
  | false =>
      show (checkLimits limits (some maxMemoryPages) >>= fun _ => m.checkExportName? exportName)
        = .ok () ↔ _
      rw [check_bind_eq_ok, checkLimits_memory_eq_ok, checkExportName?_eq_ok]
      exact ⟨fun h => ⟨rfl, h⟩, fun h => h.2⟩

/-- An accepted initializer is of the declared type. -/
theorem initializes_of_checkInit {declared : ValType} {init : ConstExpr}
    (h : m.checkInit declared init = .ok ()) : m.Initializes init declared := by
  rw [checkInit, bind_eq_ok] at h
  obtain ⟨found, htype, hfound⟩ := h
  rw [require_eq_ok] at hfound
  subst hfound
  -- Only the two kinds of expression that refer to something are looked up in the module.
  cases init with
  | globalGet index =>
      rw [initType] at htype
      cases hglobal : m.importedGlobal? index.toNat with
      | none =>
          rw [hglobal] at htype
          exact absurd htype nofun
      | some global =>
          simp only [hglobal] at htype
          cases hconst : global.isMutable with
          | true =>
              rw [hconst] at htype
              exact absurd htype nofun
          | false =>
              rw [hconst] at htype
              rw [← Except.ok.inj htype]
              exact .globalGet hglobal hconst
  | refFunc index =>
      rw [initType, check_bind_eq_ok, checkIndex_eq_ok] at htype
      rw [← Except.ok.inj htype.2]
      exact .refFunc htype.1
  | i32 _ | i64 _ | f32 _ | f64 _ | refNull _ =>
      rw [← Except.ok.inj htype]
      exact .plain rfl nofun

/-- The type that is found for an initializer is the one it gives a value of. -/
theorem Initializes.initType {init : ConstExpr} {declared : ValType}
    (h : m.Initializes init declared) : m.initType declared init = .ok declared := by
  cases h with
  | plain htype hclosed =>
      cases init with
      | globalGet index => exact absurd htype nofun
      | refFunc index => exact absurd rfl (hclosed index)
      | i32 _ | i64 _ | f32 _ | f64 _ | refNull _ =>
          rw [← Option.some.inj htype]
          rfl
  | globalGet hglobal hconst =>
      rw [Module.initType, hglobal]
      simp only [hconst, Bool.false_eq_true, if_false]
  | refFunc hindex =>
      rw [Module.initType, check_bind_eq_ok, checkIndex_eq_ok]
      exact ⟨hindex, rfl⟩

/-- An initializer is accepted if it gives a value of the declared type. -/
theorem checkInit_eq_ok {declared : ValType} {init : ConstExpr} :
    m.checkInit declared init = .ok () ↔ m.Initializes init declared := by
  refine ⟨initializes_of_checkInit, ?_⟩
  intro h
  rw [checkInit, bind_eq_ok]
  exact ⟨declared, h.initType, if_pos rfl⟩

/-- A global is accepted if its initializer has its type and its export name is free. -/
theorem checkGlobal_eq_ok {type : GlobalType} {init : ConstExpr} {exportName : Option String} :
    m.checkGlobal type init exportName = .ok () ↔
      m.Initializes init type.valType ∧
        ∀ name ∈ exportName, m.NameFree name := by
  rw [checkGlobal, check_bind_eq_ok, checkInit_eq_ok, checkExportName?_eq_ok]

/-! ### Accepted declarations -/

/-- One import is checked like a batch of one, and is appended if it passes. -/
theorem addImport_eq_ok {scope name : String} {type : ExternType FuncType} {a : Accepted Nat} :
    m.addImport scope name type = .ok a ↔
      m.checkImports scope m.hasMemory [(name, type)] = .ok () ∧
        m.pushImport scope name type = a := by
  rw [addImport, check_bind_eq_ok, check_bind_eq_ok, pure_eq_ok, checkImports_cons_eq_ok]
  constructor
  · rintro ⟨himport, honly, hpush⟩
    exact ⟨⟨himport, honly, rfl⟩, hpush⟩
  · rintro ⟨⟨himport, honly, -⟩, hpush⟩
    exact ⟨himport, honly, hpush⟩

/-- A batch that passes its checks is appended. -/
theorem addImports_eq_ok {scope : String} {entries : List (String × ExternType FuncType)}
    {a : Accepted (List Nat)} :
    m.addImports scope entries = .ok a ↔
      m.checkImports scope m.hasMemory entries = .ok () ∧ m.pushImports scope entries = a := by
  rw [addImports, check_bind_eq_ok, pure_eq_ok]

/-- A function that passes its checks is appended behind the registration of its signature. -/
theorem addFunction_eq_ok {type : FuncType} {locals : List LocalRun} {body : Bytes}
    {options : FunctionOptions} {a : Accepted Nat} :
    m.addFunction type locals body options = .ok a ↔
      m.checkFunction type locals options = .ok () ∧
        { m with types := (m.types.register type).2 }.pushFunction (m.types.register type).1 locals
          body options = a := by
  rw [addFunction, check_bind_eq_ok, pure_eq_ok]

/-- A function of a signature in the table that passes its checks is appended. -/
theorem addFunctionOfType_eq_ok {typeIndex : Nat} {locals : List LocalRun} {body : Bytes}
    {options : FunctionOptions} {a : Accepted Nat} :
    m.addFunctionOfType typeIndex locals body options = .ok a ↔
      ∃ type, m.types.get? typeIndex = some type ∧ m.checkFunction type locals options = .ok () ∧
        m.pushFunction typeIndex locals body options = a := by
  rw [addFunctionOfType]
  cases htype : m.types.get? typeIndex with
  | none => exact ⟨nofun, fun ⟨_, hnone, _⟩ => absurd hnone nofun⟩
  | some type =>
      show (m.checkFunction type locals options >>= _) = .ok a ↔ _
      rw [check_bind_eq_ok, pure_eq_ok]
      constructor
      · intro h
        exact ⟨type, rfl, h⟩
      · rintro ⟨found, hfound, h⟩
        rwa [← Option.some.inj hfound] at h

/-- A table that passes its checks is appended. -/
theorem addTable_eq_ok {type : TableType} {exportName : Option String} {a : Accepted Nat} :
    m.addTable type exportName = .ok a ↔
      m.checkTable type exportName = .ok () ∧ m.pushTable type exportName = a := by
  rw [addTable, check_bind_eq_ok, pure_eq_ok]

/-- A memory that passes its checks is appended. -/
theorem addMemory_eq_ok {limits : Limits} {exportName : Option String} {a : Accepted Nat} :
    m.addMemory limits exportName = .ok a ↔
      m.checkMemory limits exportName = .ok () ∧ m.pushMemory limits exportName = a := by
  rw [addMemory, check_bind_eq_ok, pure_eq_ok]

/-- A global that passes its checks is appended. -/
theorem addGlobal_eq_ok {type : GlobalType} {init : ConstExpr} {exportName : Option String}
    {a : Accepted Nat} :
    m.addGlobal type init exportName = .ok a ↔
      m.checkGlobal type init exportName = .ok () ∧ m.pushGlobal type init exportName = a := by
  rw [addGlobal, check_bind_eq_ok, pure_eq_ok]

/-- An export that passes its checks is appended. -/
theorem addExport_eq_ok {name : String} {kind : ExternalKind} {index : Nat} {a : Accepted Unit} :
    m.addExport name kind index = .ok a ↔
      m.checkExport name kind index = .ok () ∧ m.pushExport name kind index = a := by
  rw [addExport, check_bind_eq_ok, pure_eq_ok]

/-- Data is appended if there is a memory. -/
theorem addData_eq_ok {offset : UInt32} {bytes : Bytes} {a : Accepted Nat} :
    m.addData offset bytes = .ok a ↔
      0 < m.count .memory ∧ m.pushData offset bytes = a := by
  rw [addData, check_bind_eq_ok, checkIndex_eq_ok, pure_eq_ok]

/-- What a declaration gives if all its checks pass. -/
def outcome (m : Module) : Decl → Accepted Reply
  | .importEntity scope name type => (m.pushImport scope name type).map .index
  | .importBatch scope entries => (m.pushImports scope entries).map .indices
  | .function type locals body options =>
    ({ m with types := (m.types.register type).2 }.pushFunction (m.types.register type).1 locals
      body options).map .index
  | .functionOfType typeIndex locals body options =>
    (m.pushFunction typeIndex locals body options).map .index
  | .table type exportName => (m.pushTable type exportName).map .index
  | .memory limits exportName => (m.pushMemory limits exportName).map .index
  | .global type init exportName => (m.pushGlobal type init exportName).map .index
  | .exportEntity name kind index => (m.pushExport name kind index).map fun _ => .done
  | .data offset bytes => (m.pushData offset bytes).map .index
  | .custom name bytes => (m.addCustom name bytes).map fun _ => .done

/-- An accepted declaration gives what it gives without checks. -/
theorem eq_outcome_of_declare {d : Decl} {a : Accepted Reply} (h : m.declare d = .ok a) :
    a = m.outcome d := by
  cases d with
  | importEntity scope name type =>
      obtain ⟨b, hb, rfl⟩ := map_eq_ok.mp h
      obtain ⟨-, rfl⟩ := addImport_eq_ok.mp hb
      rfl
  | importBatch scope entries =>
      obtain ⟨b, hb, rfl⟩ := map_eq_ok.mp h
      obtain ⟨-, rfl⟩ := addImports_eq_ok.mp hb
      rfl
  | function type locals body options =>
      obtain ⟨b, hb, rfl⟩ := map_eq_ok.mp h
      obtain ⟨-, rfl⟩ := addFunction_eq_ok.mp hb
      rfl
  | functionOfType typeIndex locals body options =>
      obtain ⟨b, hb, rfl⟩ := map_eq_ok.mp h
      obtain ⟨-, -, -, rfl⟩ := addFunctionOfType_eq_ok.mp hb
      rfl
  | table type exportName =>
      obtain ⟨b, hb, rfl⟩ := map_eq_ok.mp h
      obtain ⟨-, rfl⟩ := addTable_eq_ok.mp hb
      rfl
  | memory limits exportName =>
      obtain ⟨b, hb, rfl⟩ := map_eq_ok.mp h
      obtain ⟨-, rfl⟩ := addMemory_eq_ok.mp hb
      rfl
  | global type init exportName =>
      obtain ⟨b, hb, rfl⟩ := map_eq_ok.mp h
      obtain ⟨-, rfl⟩ := addGlobal_eq_ok.mp hb
      rfl
  | exportEntity name kind index =>
      obtain ⟨b, hb, rfl⟩ := map_eq_ok.mp h
      obtain ⟨-, rfl⟩ := addExport_eq_ok.mp hb
      rfl
  | data offset bytes =>
      obtain ⟨b, hb, rfl⟩ := map_eq_ok.mp h
      obtain ⟨-, rfl⟩ := addData_eq_ok.mp hb
      rfl
  | custom name bytes => exact (Except.ok.inj h).symm

end Module

end WasmAssembly
