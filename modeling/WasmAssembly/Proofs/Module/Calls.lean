import WasmAssembly.Proofs.Module.Indices
import WasmAssembly.Proofs.Module.Trace

/-!
# `WasmAssembly.Proofs.Module.Calls`: the calls of a run

What a run of declarations comes to depends on which of them are accepted. `Session.calls` lists the
calls of a run: each declaration with the module that it was made in and the answer that it got from
its command.

A session often holds in the end what each call has put there, in order. `list_run` says this for
every list that each call makes longer. The exports of a module are such a list (`exports_run`): the
declarations that export something are `Decl.exportEntity` and, under a name that is given, all
those that define an entity.
-/

set_option autoImplicit false

namespace WasmAssembly

/-- A declaration that has been made. -/
structure Call where
  /-- The module that it was made in. -/
  before : Module
  decl : Decl
  /-- The answer, or the error with which it was refused. -/
  answer : Except ModuleError Reply

/-- The name that a declaration offers for an export. -/
def Decl.exportName? : Decl → Option String
  | .function _ _ _ options | .functionOfType _ _ _ options => options.exportName
  | .table _ exportName | .memory _ exportName | .global _ _ exportName => exportName
  | .exportEntity name _ _ => some name
  | .importEntity _ _ _ | .importBatch _ _ | .data _ _ | .custom _ _ => none

/-- The export of an entity under a name. -/
def Export.named (kind : ExternalKind) (index : Nat) (name : String) : Export :=
  ⟨name, kind, index⟩

/-- The export that an accepted declaration makes: what is exported explicitly is given with it, and
what is defined is exported at the index that is answered. -/
def Decl.exported? : Decl → Reply → Option Export
  | .function _ _ _ options, .index i => options.exportName.map (.named .func i)
  | .functionOfType _ _ _ options, .index i => options.exportName.map (.named .func i)
  | .table _ exportName, .index i => exportName.map (.named .table i)
  | .memory _ exportName, .index i => exportName.map (.named .memory i)
  | .global _ _ exportName, .index i => exportName.map (.named .global i)
  | .exportEntity name kind index, _ => some ⟨name, kind, index⟩
  | _, _ => none

/-- The export that a call makes, if it is accepted. -/
def Call.exported? (c : Call) : Option Export :=
  match c.answer with
  | .ok reply => c.decl.exported? reply
  | .error _ => none

namespace Session

/-- The call that a declaration is in a session. -/
def call (s : Session) (d : Decl) : Call where
  before := s.module
  decl := d
  answer :=
    match (Command.perform d).run s with
    | .ok reply _ => .ok reply
    | .error e _ => .error e

/-- The calls of declarations made one after the other. -/
def calls (s : Session) : List Decl → List Call
  | [] => []
  | d :: ds => s.call d :: (s.after d).calls ds

variable (s : Session)

/-- A run of no declarations leaves the session as it is. -/
@[simp]
theorem run_nil : s.run [] = s := rfl

/-- A run goes on from where its first declaration leads. -/
@[simp]
theorem run_cons (d : Decl) (ds : List Decl) : s.run (d :: ds) = (s.after d).run ds := rfl

/-- A run can be cut anywhere. -/
theorem run_append (xs ys : List Decl) : s.run (xs ++ ys) = (s.run xs).run ys :=
  List.foldl_append

/-- The calls of a run that is cut are those of its two parts. -/
theorem calls_append (xs ys : List Decl) :
    s.calls (xs ++ ys) = s.calls xs ++ (s.run xs).calls ys := by
  induction xs generalizing s with
  | nil => rfl
  | cons d xs ih => rw [List.cons_append, calls, ih, calls, run_cons, List.cons_append]

/-! ### One call -/

/-- The answer of a call is that of the declaration made at once. -/
theorem answer_call (d : Decl) : (s.call d).answer = (s.module.declare d).map (·.value) := by
  rw [call, Command.run_perform]
  cases s.module.declare d <;> rfl

/-- A call is answered if its declaration is accepted, and with its value. -/
theorem answer_call_eq_ok {s : Session} {d : Decl} {reply : Reply} :
    (s.call d).answer = .ok reply ↔ ∃ a, s.module.declare d = .ok a ∧ a.value = reply := by
  rw [answer_call]
  exact map_eq_ok

/-- An accepted declaration leaves its module and adds its records. -/
theorem after_of_declare {s : Session} {d : Decl} {a : Accepted Reply}
    (h : s.module.declare d = .ok a) : s.after d = ⟨a.module, s.log ++ a.records⟩ := by
  rw [after, Command.run_perform, h]
  rfl

/-- A refused declaration leaves the session as it is. -/
theorem after_of_refused {s : Session} {d : Decl} {e : ModuleError}
    (h : s.module.declare d = .error e) : s.after d = s := by
  rw [after, Command.run_perform, h]
  rfl

/-! ### All calls of a run -/

/-- The calls of a run are those of its declarations, each where its turn comes. -/
theorem mem_calls {s : Session} {ds : List Decl} {c : Call} :
    c ∈ s.calls ds ↔ ∃ before d behind, ds = before ++ d :: behind ∧ c = (s.run before).call d := by
  constructor
  · intro h
    induction ds generalizing s with
    | nil => exact absurd h List.not_mem_nil
    | cons d ds ih =>
        obtain rfl | h := List.mem_cons.mp h
        · exact ⟨[], d, ds, rfl, rfl⟩
        · obtain ⟨before, d', behind, rfl, rfl⟩ := ih h
          exact ⟨d :: before, d', behind, rfl, rfl⟩
  · rintro ⟨before, d, behind, rfl, rfl⟩
    rw [calls_append, calls]
    exact List.mem_append_right _ List.mem_cons_self

/-- A list to which each call appends its part is the parts of all calls in the end. -/
theorem list_run {α : Type} (list : Session → List α) (part : Call → List α)
    (hafter : ∀ s d, list (s.after d) = list s ++ part (s.call d)) (ds : List Decl) :
    list (s.run ds) = list s ++ (s.calls ds).flatMap part := by
  induction ds generalizing s with
  | nil => exact (List.append_nil _).symm
  | cons d ds ih => rw [run_cons, ih, hafter, calls, List.flatMap_cons, List.append_assoc]

end Session

/-! ### Exports -/

/-- What is exported under a name has this name. -/
theorem Export.map_name_named {kind : ExternalKind} {index : Nat} (exportName : Option String) :
    (exportName.map (Export.named kind index)).map (·.name) = exportName := by
  cases exportName <;> rfl

/-- What is exported with an entity is its export at the index that is given. -/
theorem Accepted.exports_exportedAs (a : Accepted Nat) (kind : ExternalKind)
    (exportName : Option String) :
    (a.exportedAs kind exportName).module.exports.toList = a.module.exports.toList
      ++ (exportName.map (.named kind (a.exportedAs kind exportName).value)).toList := by
  cases exportName with
  | none => exact (List.append_nil _).symm
  | some name => exact Array.toList_push

namespace Module

/-- What is exported with a function is its export at the index that is given. -/
theorem exports_pushFunction (m : Module) (typeIndex : Nat) (locals : List LocalRun) (body : Bytes)
    (options : FunctionOptions) :
    (m.pushFunction typeIndex locals body options).module.exports.toList = m.exports.toList
      ++ (options.exportName.map
        (.named .func (m.pushFunction typeIndex locals body options).value)).toList := by
  obtain ⟨exportName, start⟩ := options
  cases start <;> exact Accepted.exports_exportedAs _ .func exportName

/-- An accepted declaration appends the export that it makes. -/
theorem exports_declare {m : Module} {d : Decl} {a : Accepted Reply} (h : m.declare d = .ok a) :
    a.module.exports.toList = m.exports.toList ++ (d.exported? a.value).toList := by
  have houtcome := eq_outcome_of_declare h
  subst houtcome
  cases d with
  | importBatch scope entries =>
      show (m.pushImports scope entries).module.exports.toList = m.exports.toList ++ []
      rw [module_pushImports, toList_addAll exports_add, List.filterMap_map]
      exact congrArg _ (List.filterMap_eq_nil_iff.mpr fun _ _ => rfl)
  | function type locals body options => exact exports_pushFunction _ _ locals body options
  | functionOfType typeIndex locals body options =>
      exact exports_pushFunction m typeIndex locals body options
  | table type exportName => exact Accepted.exports_exportedAs _ .table exportName
  | memory limits exportName => exact Accepted.exports_exportedAs _ .memory exportName
  | global type init exportName => exact Accepted.exports_exportedAs _ .global exportName
  | exportEntity name kind index => exact Array.toList_push
  | importEntity _ _ _ | data _ _ | custom _ _ => exact (List.append_nil _).symm

/-- An accepted declaration makes an export exactly if it offers a name, and under that name. -/
theorem name_exported_declare {m : Module} {d : Decl} {a : Accepted Reply}
    (h : m.declare d = .ok a) : (d.exported? a.value).map (·.name) = d.exportName? := by
  have houtcome := eq_outcome_of_declare h
  subst houtcome
  cases d with
  | function _ _ _ options | functionOfType _ _ _ options =>
      exact Export.map_name_named options.exportName
  | table _ exportName | memory _ exportName | global _ _ exportName =>
      exact Export.map_name_named exportName
  | importEntity _ _ _ | importBatch _ _ | exportEntity _ _ _ | data _ _ | custom _ _ => rfl

end Module

namespace Session

/-- A call makes an export if its declaration is accepted and makes it. -/
theorem exported_call_eq_some {s : Session} {d : Decl} {e : Export} :
    (s.call d).exported? = some e ↔
      ∃ a, s.module.declare d = .ok a ∧ d.exported? a.value = some e := by
  rw [Call.exported?, answer_call]
  cases s.module.declare d with
  | ok a =>
      constructor
      · intro he
        exact ⟨a, rfl, he⟩
      · rintro ⟨b, hb, he⟩
        rwa [← Except.ok.inj hb] at he
  | error e => exact ⟨nofun, fun ⟨_, hok, _⟩ => absurd hok nofun⟩

/-- A session has one export more if the call has made one. -/
theorem exports_after (s : Session) (d : Decl) :
    (s.after d).module.exports.toList
      = s.module.exports.toList ++ (s.call d).exported?.toList := by
  rw [Call.exported?, answer_call]
  cases h : s.module.declare d with
  | ok a =>
      rw [after_of_declare h]
      exact Module.exports_declare h
  | error e =>
      rw [after_of_refused h]
      exact (List.append_nil _).symm

/-- The exports of a module are those that the calls of the run have made. -/
theorem exports_run (ds : List Decl) :
    (start.run ds).module.exports.toList = (start.calls ds).filterMap Call.exported? := by
  rw [List.filterMap_eq_flatMap_toList]
  exact start.list_run (fun s => s.module.exports.toList) (fun c => c.exported?.toList)
    exports_after ds

end Session

end WasmAssembly
