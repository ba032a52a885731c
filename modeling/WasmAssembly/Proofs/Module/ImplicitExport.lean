import WasmAssembly.Proofs.Module.Additions
import WasmAssembly.Proofs.Module.Session

/-!
# `WasmAssembly.Proofs.Module.ImplicitExport`: entities that are exported as they are defined

What a module defines can be exported at once, under a name that is given with the definition. The
name is checked last, when the rest of the definition is admissible, and the export is appended
without another look at the index.

Nothing that a definition appends changes which names are taken, and it gives an index of its kind.
So it is the same to define the entity without a name and to export it then (`run_command`), in
every session and for each way to define something (`exportAtOnce_iff_exportEntity`).
-/

set_option autoImplicit false

namespace WasmAssembly

/-- An entity that a module defines. Whether it is exported is not part of it. -/
inductive Definition where
  | function (type : FuncType) (locals : List LocalRun) (body : Bytes) (start : Bool)
  | functionOfType (typeIndex : Nat) (locals : List LocalRun) (body : Bytes) (start : Bool)
  | table (type : TableType)
  | memory (limits : Limits)
  | global (type : GlobalType) (init : ConstExpr)
  deriving DecidableEq

namespace Definition

/-- The kind of what is defined. -/
def kind : Definition → ExternalKind
  | function .. | functionOfType .. => .func
  | table _ => .table
  | memory _ => .memory
  | global .. => .global

/-- The command that defines an entity, and exports it at once if a name is given. -/
def command (exportName : Option String) : Definition → Command Nat
  | function type locals body start => Command.function type locals body ⟨exportName, start⟩
  | functionOfType typeIndex locals body start =>
    Command.functionOfType typeIndex locals body ⟨exportName, start⟩
  | table type => Command.table type exportName
  | memory limits => Command.memory limits exportName
  | global type init => Command.global type init exportName

end Definition

namespace Module

variable (m : Module) (name : String)

/-! ### The name is checked last -/

/-- The export name of a function is checked behind everything else about it. -/
theorem checkFunction_some (type : FuncType) (locals : List LocalRun) (start : Bool) :
    m.checkFunction type locals ⟨some name, start⟩ = (do
      m.checkFunction type locals ⟨none, start⟩
      m.checkExportName name) := by
  rw [checkFunction, checkFunction]
  cases checkLocals type locals with
  | error e => rfl
  | ok _ =>
      cases start with
      | false => rfl
      | true =>
          cases m.checkStart type with
          | error e => rfl
          | ok _ => rfl

/-- The export name of a table is checked behind everything else about it. -/
theorem checkTable_some (type : TableType) :
    m.checkTable type (some name) = (do
      m.checkTable type none
      m.checkExportName name) := by
  rw [checkTable, checkTable]
  cases checkLimits type.limits none <;> rfl

/-- The export name of a memory is checked behind everything else about it. -/
theorem checkMemory_some (limits : Limits) :
    m.checkMemory limits (some name) = (do
      m.checkMemory limits none
      m.checkExportName name) := by
  rw [checkMemory, checkMemory]
  cases m.hasMemory with
  | true => rfl
  | false => cases checkLimits limits (some maxMemoryPages) <;> rfl

/-- The export name of a global is checked behind everything else about it. -/
theorem checkGlobal_some (type : GlobalType) (init : ConstExpr) :
    m.checkGlobal type init (some name) = (do
      m.checkGlobal type init none
      m.checkExportName name) := by
  rw [checkGlobal, checkGlobal]
  cases m.checkInit type.valType init <;> rfl

/-! ### The export comes last -/

/-- An entity has been appended to a module, and is not exported. -/
structure Appended (m : Module) (kind : ExternalKind) (a : Accepted Nat) : Prop where
  /-- The exports are those of before. -/
  exports : a.module.exports = m.exports
  /-- The index is that of an entity of the kind. -/
  index : a.value < a.module.count kind

variable {m}

/-- What has been appended can be exported under each name that was free before it. -/
theorem Appended.addExport {kind : ExternalKind} {a : Accepted Nat} (h : m.Appended kind a) :
    a.module.addExport name kind a.value = (do
      m.checkExportName name
      return a.module.pushExport name kind a.value) := by
  have hname : a.module.checkExportName name = m.checkExportName name := by
    rw [checkExportName, checkExportName, h.exports]
  have hindex : a.module.checkIndex kind a.value = .ok () := checkIndex_eq_ok.mpr h.index
  rw [Module.addExport, checkExport, hname, hindex]
  cases m.checkExportName name <;> rfl

/-- To check a definition, append it and export it is to check it together with the name, and then
to append both. -/
theorem Appended.andThen {kind : ExternalKind} {a : Accepted Nat} (h : m.Appended kind a)
    (check : Except ModuleError Unit) :
    (do (do check; m.checkExportName name); return a.exportedAs kind (some name))
      = Accepted.andThen (do check; return a) (fun n i => n.addExport name kind i)
          fun i _ => i := by
  cases check with
  | error e => rfl
  | ok _ =>
      show _ = (do let b ← a.module.addExport name kind a.value; _)
      rw [h.addExport]
      cases m.checkExportName name <;> rfl

variable (m)

/-- A function with a name is appended as one without it, and is exported then. -/
theorem pushFunction_some (typeIndex : Nat) (locals : List LocalRun) (body : Bytes)
    (start : Bool) :
    m.pushFunction typeIndex locals body ⟨some name, start⟩
      = (m.pushFunction typeIndex locals body ⟨none, start⟩).exportedAs .func (some name) := by
  cases start <;> rfl

/-- A function without a name is appended and not exported. -/
theorem appended_function (typeIndex : Nat) (locals : List LocalRun) (body : Bytes)
    (start : Bool) :
    m.Appended .func (m.pushFunction typeIndex locals body ⟨none, start⟩) := by
  -- Which signature the function has makes no difference to the number of functions.
  have hindex := count_lt_count_add m (.function .empty typeIndex locals body) rfl
  cases start with
  | false => exact ⟨rfl, hindex⟩
  | true => exact ⟨rfl, hindex⟩

/-- A table without a name is appended and not exported. -/
theorem appended_table (type : TableType) : m.Appended .table (m.pushTable type none) :=
  ⟨rfl, count_lt_count_add m (.table type) rfl⟩

/-- A memory without a name is appended and not exported. -/
theorem appended_memory (limits : Limits) : m.Appended .memory (m.pushMemory limits none) :=
  ⟨rfl, count_lt_count_add m (.memory limits) rfl⟩

/-- A global without a name is appended and not exported. -/
theorem appended_global (type : GlobalType) (init : ConstExpr) :
    m.Appended .global (m.pushGlobal type init none) :=
  ⟨rfl, count_lt_count_add m (.global type init) rfl⟩

end Module

namespace Definition

/-- A definition is a check, and behind it something is appended that is not exported. With a name,
the name is checked last, and the export is appended last. -/
theorem run_command (d : Definition) (s : Session) :
    ∃ (check : Except ModuleError Unit) (a : Accepted Nat), s.module.Appended d.kind a ∧
      (d.command none).run s = s.settle (do check; return a) ∧
      ∀ name, (d.command (some name)).run s = s.settle (do
        (do check; s.module.checkExportName name)
        return a.exportedAs d.kind (some name)) := by
  cases d with
  | function type locals body start =>
      -- A registration changes neither the exports nor the number of functions.
      have h := Module.appended_function
        { s.module with types := (s.module.types.register type).2 }
        (s.module.types.register type).1 locals body start
      refine ⟨s.module.checkFunction type locals ⟨none, start⟩, _, ⟨h.exports, h.index⟩,
        Command.run_function s type locals body ⟨none, start⟩, ?_⟩
      intro name
      rw [command, Command.run_function, Module.addFunction, Module.checkFunction_some]
      simp only [Module.pushFunction_some, kind]
  | functionOfType typeIndex locals body start =>
      have hrun := Command.run_functionOfType s typeIndex locals body
      simp only [Module.addFunctionOfType] at hrun
      have happended := s.module.appended_function typeIndex locals body start
      cases htype : s.module.types.get? typeIndex with
      | none =>
          rw [htype] at hrun
          exact ⟨.error (.unknownType typeIndex), _, happended, hrun _, fun _ => hrun _⟩
      | some type =>
          rw [htype] at hrun
          refine ⟨s.module.checkFunction type locals ⟨none, start⟩, _, happended, hrun _, ?_⟩
          intro name
          rw [command, hrun]
          simp only [Module.checkFunction_some, Module.pushFunction_some, kind]
  | table type =>
      refine ⟨s.module.checkTable type none, _, s.module.appended_table type,
        Command.run_table s type none, ?_⟩
      intro name
      rw [command, Command.run_table, Module.addTable, Module.checkTable_some]
      rfl
  | memory limits =>
      refine ⟨s.module.checkMemory limits none, _, s.module.appended_memory limits,
        Command.run_memory s limits none, ?_⟩
      intro name
      rw [command, Command.run_memory, Module.addMemory, Module.checkMemory_some]
      rfl
  | global type init =>
      refine ⟨s.module.checkGlobal type init none, _, s.module.appended_global type init,
        Command.run_global s type init none, ?_⟩
      intro name
      rw [command, Command.run_global, Module.addGlobal, Module.checkGlobal_some]
      rfl

/-- To define an entity with a name is to define it without one and then to export it, all or
nothing. In every session the definition with a name succeeds exactly if the other one does and the
export after it, and then gives the same index and leaves the same session. It fails with an error
exactly if this is the error of one of the two steps, and then leaves the session as it was. -/
theorem exportAtOnce_iff_exportEntity (s : Session) (d : Definition) (name : String) :
    (∀ index s', (d.command (some name)).run s = .ok index s' ↔
      ∃ t, (d.command none).run s = .ok index t ∧
        (Command.exportEntity name d.kind index).run t = .ok () s') ∧
    ∀ e s', (d.command (some name)).run s = .error e s' ↔
      s' = s ∧ ((d.command none).run s = .error e s ∨
        ∃ index t, (d.command none).run s = .ok index t ∧
          (Command.exportEntity name d.kind index).run t = .error e t) := by
  obtain ⟨check, a, happended, hnone, hsome⟩ := d.run_command s
  rw [hnone, hsome, happended.andThen name check]
  simp only [Command.run_exportEntity]
  constructor
  · intro index s'
    rw [Session.settle_andThen_eq_ok]
    constructor
    · rintro ⟨_, _, t, hdefined, hexported, rfl⟩
      exact ⟨t, hdefined, hexported⟩
    · rintro ⟨t, hdefined, hexported⟩
      exact ⟨index, (), t, hdefined, hexported, rfl⟩
  · intro e s'
    exact Session.settle_andThen_eq_error

end Definition

end WasmAssembly
