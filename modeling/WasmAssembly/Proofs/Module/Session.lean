import WasmAssembly.Module.Session
import WasmAssembly.Proofs.Module.Run

/-!
# `WasmAssembly.Proofs.Module.Session`: commands do what declarations say

A command changes a session step by step, while `Module.declare` gives the whole result at once.
`run_perform` says that the two agree: an accepted declaration leaves the module and the records
that `declare` gives, and a refused one leaves the session as it was. The second half is not for
free, as a command that fails keeps the changes that it has made by then.

Appending is followed first, without any check. A check in front of it lets the session pass or
ends it where it is (`run_require`).

Two declarations can be made in turn, as one (`Accepted.andThen`). What a session comes to then is
what it comes to step by step, except that the first step is taken back if the second one fails
(`settle_andThen_eq_ok`, `settle_andThen_eq_error`).
-/

set_option autoImplicit false

namespace WasmAssembly

/-- How a session goes on if a declaration is made at once: what is accepted is taken over, and an
error changes nothing. -/
def Session.settle {α : Type} (s : Session) :
    Except ModuleError (Accepted α) → EStateM.Result ModuleError Session α
  | .ok a => .ok a.value ⟨a.module, s.log ++ a.records⟩
  | .error e => .error e s

/-- One declaration after another, which may depend on the module and the answer of the first. Both
are recorded. -/
def Accepted.andThen {α β γ : Type} (first : Except ModuleError (Accepted α))
    (next : Module → α → Except ModuleError (Accepted β)) (join : α → β → γ) :
    Except ModuleError (Accepted γ) := do
  let a ← first
  let b ← next a.module a.value
  return ⟨b.module, join a.value b.value, a.records ++ b.records⟩

namespace Session

/-! ### How a session goes on -/

section Settle

variable {α : Type} {s s' : Session} {x : Except ModuleError (Accepted α)}

/-- An accepted declaration leaves its module, its answer and its records. -/
theorem settle_eq_ok {v : α} :
    s.settle x = .ok v s' ↔
      ∃ a, x = .ok a ∧ a.value = v ∧ ⟨a.module, s.log ++ a.records⟩ = s' := by
  cases x with
  | error e => exact ⟨nofun, fun ⟨_, h, _⟩ => absurd h nofun⟩
  | ok a =>
      constructor
      · intro h
        obtain ⟨hvalue, hsession⟩ := EStateM.Result.ok.inj h
        exact ⟨a, rfl, hvalue, hsession⟩
      · rintro ⟨b, hb, rfl, rfl⟩
        cases hb
        rfl

/-- A refused declaration leaves its error and the session as it is. -/
theorem settle_eq_error {e : ModuleError} :
    s.settle x = .error e s' ↔ x = .error e ∧ s' = s := by
  cases x with
  | ok a => exact ⟨nofun, fun h => absurd h.1 nofun⟩
  | error e' =>
      constructor
      · intro h
        obtain ⟨rfl, rfl⟩ := EStateM.Result.error.inj h
        exact ⟨rfl, rfl⟩
      · rintro ⟨h, rfl⟩
        cases h
        rfl

variable {β γ : Type} {next : Module → α → Except ModuleError (Accepted β)} {join : α → β → γ}

/-- Records that are added together are those that are added one after the other. -/
theorem log_append (log : Array Record) (xs ys : List Record) :
    log ++ (xs ++ ys) = log ++ xs ++ ys :=
  List.foldl_append

/-- Two declarations in turn succeed if the second one does in the session that the first leaves. -/
theorem settle_andThen_eq_ok {v : γ} :
    s.settle (Accepted.andThen x next join) = .ok v s' ↔
      ∃ a b t, s.settle x = .ok a t ∧ t.settle (next t.module a) = .ok b s' ∧ join a b = v := by
  rw [settle_eq_ok]
  constructor
  · rintro ⟨c, hc, rfl, rfl⟩
    obtain ⟨a, ha, hc⟩ := bind_eq_ok.mp hc
    obtain ⟨b, hb, hc⟩ := bind_eq_ok.mp hc
    rw [← pure_eq_ok.mp hc, log_append]
    exact ⟨a.value, b.value, ⟨a.module, s.log ++ a.records⟩, settle_eq_ok.mpr ⟨a, ha, rfl, rfl⟩,
      settle_eq_ok.mpr ⟨b, hb, rfl, rfl⟩, rfl⟩
  · rintro ⟨_, _, _, hfirst, hnext, rfl⟩
    obtain ⟨a, ha, rfl, rfl⟩ := settle_eq_ok.mp hfirst
    obtain ⟨b, hb, rfl, rfl⟩ := settle_eq_ok.mp hnext
    refine ⟨_, bind_eq_ok.mpr ⟨a, ha, bind_eq_ok.mpr ⟨b, hb, rfl⟩⟩, rfl, ?_⟩
    rw [log_append]

/-- Two declarations in turn fail with the error of the first one or of the second one, in the
session that it finds. Neither leaves a change behind. -/
theorem settle_andThen_eq_error {e : ModuleError} :
    s.settle (Accepted.andThen x next join) = .error e s' ↔
      s' = s ∧ (s.settle x = .error e s ∨
        ∃ a t, s.settle x = .ok a t ∧ t.settle (next t.module a) = .error e t) := by
  rw [settle_eq_error]
  constructor
  · rintro ⟨h, rfl⟩
    refine ⟨rfl, ?_⟩
    obtain hx | ⟨a, ha, h⟩ := bind_eq_error.mp h
    · exact .inl (settle_eq_error.mpr ⟨hx, rfl⟩)
    · obtain hnext | ⟨b, -, h⟩ := bind_eq_error.mp h
      · exact .inr ⟨a.value, ⟨a.module, s'.log ++ a.records⟩, settle_eq_ok.mpr ⟨a, ha, rfl, rfl⟩,
          settle_eq_error.mpr ⟨hnext, rfl⟩⟩
      · exact absurd h nofun
  · rintro ⟨rfl, hfirst | ⟨_, _, hfirst, hnext⟩⟩
    · exact ⟨bind_eq_error.mpr (.inl (settle_eq_error.mp hfirst).1), rfl⟩
    · obtain ⟨a, ha, rfl, rfl⟩ := settle_eq_ok.mp hfirst
      obtain ⟨hb, -⟩ := settle_eq_error.mp hnext
      exact ⟨bind_eq_error.mpr (.inr ⟨a, ha, bind_eq_error.mpr (.inl hb)⟩), rfl⟩

end Settle

end Session

namespace Command

variable {α β : Type}

/-! ### Sequences -/

/-- What comes after a command that succeeds starts from the session that it leaves. -/
theorem run_bind {command : Command α} {next : α → Command β} {s s' : Session} {a : α}
    (h : command.run s = .ok a s') : (command >>= next).run s = (next a).run s' := by
  show EStateM.bind command next s = _
  rw [EStateM.bind, show command s = .ok a s' from h]
  rfl

/-- A command that fails is not followed by another one. -/
theorem run_bind_of_error {command : Command α} {next : α → Command β} {s s' : Session}
    {e : ModuleError} (h : command.run s = .error e s') :
    (command >>= next).run s = .error e s' := by
  show EStateM.bind command next s = _
  rw [EStateM.bind, show command s = .error e s' from h]

/-- A sequence of two commands succeeds if both do. -/
theorem run_bind_eq_ok {command : Command α} {next : α → Command β} {s s' : Session} {b : β} :
    (command >>= next).run s = .ok b s' ↔
      ∃ a t, command.run s = .ok a t ∧ (next a).run t = .ok b s' := by
  cases h : command.run s with
  | ok a t =>
      rw [run_bind h]
      constructor
      · intro hnext
        exact ⟨a, t, rfl, hnext⟩
      · rintro ⟨a', t', hsame, hnext⟩
        obtain ⟨rfl, rfl⟩ := EStateM.Result.ok.inj hsame
        exact hnext
  | error e t =>
      rw [run_bind_of_error h]
      exact ⟨nofun, fun ⟨_, _, hok, _⟩ => absurd hok nofun⟩

/-- A rule is checked without a change to the session. -/
theorem run_rule (rule : Module → Except ModuleError α) (s : Session) :
    (require rule).run s =
      match rule s.module with
      | .ok a => .ok a s
      | .error e => .error e s := by
  show EStateM.run (match rule s.module with | .ok a => pure a | .error e => throw e) s = _
  cases rule s.module <;> rfl

/-- A check in front of a command is a check in front of what the command comes to. -/
theorem run_require {rule : Module → Except ModuleError Unit} {command : Command α} {s : Session}
    {result : Except ModuleError (Accepted α)} (h : command.run s = s.settle result) :
    (do require rule; command).run s = s.settle (do rule s.module; result) := by
  show EStateM.bind (require rule) (fun _ => command) s = _
  rw [EStateM.bind, show require rule s = _ from run_rule rule s]
  cases rule s.module with
  | ok _ => exact h
  | error e => rfl

/-- An answer that is only rewritten. -/
theorem run_map {command : Command α} {s : Session} {result : Except ModuleError (Accepted α)}
    (h : command.run s = s.settle result) (f : α → β) :
    (do return f (← command)).run s = s.settle (result.map (·.map f)) := by
  show EStateM.bind command _ s = _
  rw [EStateM.bind, show command s = _ from h]
  cases result <;> rfl

/-! ### Appending -/

/-- The steps that append an import do what `Module.pushImport` says. -/
theorem run_pushImport (s : Session) (scope name : String) (type : ExternType FuncType) :
    (pushImport scope name type).run s = s.settle (.ok (s.module.pushImport scope name type)) := by
  cases type <;> rfl

/-- The steps that append a batch do what `Module.pushImports` says. -/
theorem run_pushImports (s : Session) (scope : String)
    (entries : List (String × ExternType FuncType)) :
    (pushImports scope entries).run s = s.settle (.ok (s.module.pushImports scope entries)) := by
  induction entries generalizing s with
  | nil => rfl
  | cons entry entries ih =>
      obtain ⟨name, type⟩ := entry
      rw [pushImports, run_bind (run_pushImport s scope name type), run_bind (ih _)]
      -- The two logs differ in how the records of the entries are put together.
      exact congrArg (EStateM.Result.ok _ <| Session.mk _ ·) (Session.log_append _ _ _).symm

/-- The steps that append a function do what `Module.pushFunction` says. -/
theorem run_pushFunction (s : Session) (typeIndex : Nat) (locals : List LocalRun) (body : Bytes)
    (options : FunctionOptions) :
    (pushFunction typeIndex locals body options).run s
      = s.settle (.ok (s.module.pushFunction typeIndex locals body options)) := by
  obtain ⟨exportName, start⟩ := options
  cases exportName <;> cases start <;> rfl

/-! ### Declarations -/

/-- The command of an import does what `Module.addImport` says. -/
theorem run_importEntity (s : Session) (scope name : String) (type : ExternType FuncType) :
    (importEntity scope name type).run s = s.settle (s.module.addImport scope name type) :=
  run_require (run_require (run_pushImport s scope name type))

/-- The command of a batch does what `Module.addImports` says. -/
theorem run_importBatch (s : Session) (scope : String)
    (entries : List (String × ExternType FuncType)) :
    (importBatch scope entries).run s = s.settle (s.module.addImports scope entries) :=
  run_require (run_pushImports s scope entries)

/-- The command of a function does what `Module.addFunction` says. -/
theorem run_function (s : Session) (type : FuncType) (locals : List LocalRun) (body : Bytes)
    (options : FunctionOptions) :
    (function type locals body options).run s
      = s.settle (s.module.addFunction type locals body options) := by
  refine run_require ?_
  -- The signature is registered behind the check, in a session of which nothing is recorded yet.
  exact run_pushFunction ⟨{ s.module with types := (s.module.types.register type).2 }, s.log⟩
    (s.module.types.register type).1 locals body options

/-- The command of a function by its type index does what `Module.addFunctionOfType` says. -/
theorem run_functionOfType (s : Session) (typeIndex : Nat) (locals : List LocalRun) (body : Bytes)
    (options : FunctionOptions) :
    (functionOfType typeIndex locals body options).run s
      = s.settle (s.module.addFunctionOfType typeIndex locals body options) := by
  have hlook : (look (·.types.get? typeIndex)).run s = .ok (s.module.types.get? typeIndex) s := rfl
  rw [functionOfType, run_bind hlook, Module.addFunctionOfType]
  cases s.module.types.get? typeIndex with
  | none => rfl
  | some type => exact run_require (run_pushFunction s typeIndex locals body options)

/-- The command of a table does what `Module.addTable` says. -/
theorem run_table (s : Session) (type : TableType) (exportName : Option String) :
    (table type exportName).run s = s.settle (s.module.addTable type exportName) := by
  refine run_require ?_
  cases exportName <;> rfl

/-- The command of a memory does what `Module.addMemory` says. -/
theorem run_memory (s : Session) (limits : Limits) (exportName : Option String) :
    (memory limits exportName).run s = s.settle (s.module.addMemory limits exportName) := by
  refine run_require ?_
  cases exportName <;> rfl

/-- The command of a global does what `Module.addGlobal` says. -/
theorem run_global (s : Session) (type : GlobalType) (init : ConstExpr)
    (exportName : Option String) :
    (global type init exportName).run s = s.settle (s.module.addGlobal type init exportName) := by
  refine run_require ?_
  cases exportName <;> rfl

/-- The command of an export does what `Module.addExport` says. -/
theorem run_exportEntity (s : Session) (name : String) (kind : ExternalKind) (index : Nat) :
    (exportEntity name kind index).run s = s.settle (s.module.addExport name kind index) :=
  run_require rfl

/-- The command of a data segment does what `Module.addData` says. -/
theorem run_data (s : Session) (offset : UInt32) (bytes : Bytes) :
    (data offset bytes).run s = s.settle (s.module.addData offset bytes) :=
  run_require rfl

/-- A command leaves of a session what the declaration says. -/
theorem run_perform (s : Session) (d : Decl) :
    (perform d).run s = s.settle (s.module.declare d) := by
  cases d with
  | importEntity scope name type => exact run_map (run_importEntity s scope name type) Reply.index
  | importBatch scope entries => exact run_map (run_importBatch s scope entries) Reply.indices
  | function type locals body options =>
      exact run_map (run_function s type locals body options) Reply.index
  | functionOfType typeIndex locals body options =>
      exact run_map (run_functionOfType s typeIndex locals body options) Reply.index
  | table type exportName => exact run_map (run_table s type exportName) Reply.index
  | memory limits exportName => exact run_map (run_memory s limits exportName) Reply.index
  | global type init exportName => exact run_map (run_global s type init exportName) Reply.index
  | exportEntity name kind index =>
      exact run_map (run_exportEntity s name kind index) fun _ => Reply.done
  | data offset bytes => exact run_map (run_data s offset bytes) Reply.index
  | custom name bytes => rfl

end Command

namespace Session

/-- The module of a session goes the way of declarations that are made at once. -/
theorem module_after (s : Session) (d : Decl) : (s.after d).module = s.module.after d := by
  rw [after, Command.run_perform, Module.after]
  cases s.module.declare d <;> rfl

/-- A session goes through the modules that the declarations lead to. -/
theorem module_run (s : Session) (ds : List Decl) : (s.run ds).module = s.module.run ds := by
  induction ds generalizing s with
  | nil => rfl
  | cons d ds ih =>
      show ((s.after d).run ds).module = _
      rw [ih, module_after, Module.run_cons]

end Session

end WasmAssembly
