import WasmAssembly.Proofs.Module.Rules

/-!
# `WasmAssembly.Proofs.Module.Limit`: the one limit that is checked

A declaration can be refused because it goes beyond what the format can express. `limitExceeded_iff`
says when: exactly if it defines a function with more locals than can be numbered. No other check
has this error, so nothing is ever refused because a name, a body, a list of local runs or the bytes
of a segment are too long.
-/

set_option autoImplicit false

namespace WasmAssembly

namespace Module

/-- A function is declared with more locals than can be numbered, parameters included. -/
def TooManyLocals (m : Module) : Decl → Prop
  | .function type locals _ _ => ¬LocalsOk type locals
  | .functionOfType typeIndex locals _ _ =>
    ∃ type, m.types.get? typeIndex = some type ∧ ¬LocalsOk type locals
  | _ => False

/-- The error does not say that a limit is exceeded. -/
def NotLimit (e : ModuleError) : Prop :=
  ∀ text, e ≠ .limitExceeded text

/-- The sizes of an entity are not a limit of this kind. -/
theorem checkLimits_notLimit (limits : Limits) (cap : Option UInt32) :
    FailsOnlyWith NotLimit (checkLimits limits cap) :=
  failsOnlyWith_require nofun

/-- No check of an import is about a limit. -/
theorem checkImport_notLimit (m : Module) (scope name : String) (type : ExternType FuncType) :
    FailsOnlyWith NotLimit (m.checkImport scope name type) := by
  refine FailsOnlyWith.bind ?_ fun _ => failsOnlyWith_forbid nofun
  cases type with
  | table type => exact checkLimits_notLimit type.limits none
  | memory limits => exact checkLimits_notLimit limits (some maxMemoryPages)
  | func _ | global _ => exact failsOnlyWith_ok ()

/-- That there is one memory is not a limit of this kind. -/
theorem checkOnlyMemory_notLimit {σ : Type} (hasMemory : Bool) (type : ExternType σ) :
    FailsOnlyWith NotLimit (checkOnlyMemory hasMemory type) :=
  failsOnlyWith_forbid nofun

/-- No check of a batch is about a limit. -/
theorem checkImports_notLimit (m : Module) (scope : String) (hasMemory : Bool)
    (entries : List (String × ExternType FuncType)) :
    FailsOnlyWith NotLimit (m.checkImports scope hasMemory entries) := by
  induction entries generalizing hasMemory with
  | nil => exact failsOnlyWith_ok ()
  | cons entry entries ih =>
      obtain ⟨name, type⟩ := entry
      exact (m.checkImport_notLimit scope name type).bind fun _ =>
        (checkOnlyMemory_notLimit hasMemory type).bind fun _ => ih _

/-- A name that is taken is not beyond a limit. -/
theorem checkExportName?_notLimit (m : Module) (exportName : Option String) :
    FailsOnlyWith NotLimit (m.checkExportName? exportName) := by
  cases exportName with
  | none => exact failsOnlyWith_ok ()
  | some name => exact failsOnlyWith_forbid nofun

/-- An index that is out of range is not beyond a limit. -/
theorem checkIndex_notLimit (m : Module) (kind : ExternalKind) (index : Nat) :
    FailsOnlyWith NotLimit (m.checkIndex kind index) :=
  failsOnlyWith_require nofun

/-- No check of the start is about a limit. -/
theorem checkStart_notLimit (m : Module) (type : FuncType) :
    FailsOnlyWith NotLimit (m.checkStart type) := by
  unfold checkStart
  split
  · exact failsOnlyWith_error nofun
  · exact failsOnlyWith_require nofun

/-- An initializer without a type is not beyond a limit. -/
theorem initType_notLimit (m : Module) (declared : ValType) (init : ConstExpr) :
    FailsOnlyWith NotLimit (m.initType declared init) := by
  cases init with
  | globalGet index =>
      rw [initType]
      cases m.importedGlobal? index.toNat with
      | none =>
          refine failsOnlyWith_error ?_
          rintro text ⟨⟩
      | some global =>
          show FailsOnlyWith NotLimit (if global.isMutable then _ else _)
          refine failsOnlyWith_forbid ?_
          rintro text ⟨⟩
  | refFunc index =>
      exact (m.checkIndex_notLimit .func index.toNat).bind fun _ => failsOnlyWith_ok _
  | i32 _ | i64 _ | f32 _ | f64 _ | refNull _ => exact failsOnlyWith_ok _

/-- No check of an initializer is about a limit. -/
theorem checkInit_notLimit (m : Module) (declared : ValType) (init : ConstExpr) :
    FailsOnlyWith NotLimit (m.checkInit declared init) :=
  (m.initType_notLimit declared init).bind fun _ => failsOnlyWith_require nofun

/-- The number of locals is checked before anything else about a function, and nothing else about
it is a limit. -/
theorem checkFunction_limit (m : Module) (type : FuncType) (locals : List LocalRun)
    (options : FunctionOptions) :
    (∃ text, m.checkFunction type locals options = .error (.limitExceeded text)) ↔
      ¬LocalsOk type locals := by
  by_cases hlocals : LocalsOk type locals
  · have hcheck : checkLocals type locals = .ok () := checkLocals_eq_ok.mpr hlocals
    have hrest : FailsOnlyWith NotLimit (m.checkFunction type locals options) := by
      have hname := m.checkExportName?_notLimit options.exportName
      rw [checkFunction, hcheck]
      refine FailsOnlyWith.bind (failsOnlyWith_ok ()) fun _ => ?_
      cases options.start with
      | true => exact (m.checkStart_notLimit type).bind fun _ => hname
      | false => exact hname
    refine iff_of_false ?_ (not_not_intro hlocals)
    rintro ⟨text, htext⟩
    exact hrest _ htext text rfl
  · refine iff_of_true ?_ hlocals
    rw [checkFunction, checkLocals, if_neg (mt localCount_le_iff.mp hlocals)]
    exact ⟨_, rfl⟩

/-- What follows the checks of a declaration gives no error. -/
theorem map_bind_eq_error {ε α β : Type} {x : Except ε Unit} {f : Unit → α} {g : α → β} {e : ε} :
    ((x >>= fun u => pure (f u)).map g : Except ε β) = .error e ↔ x = .error e := by
  cases x with
  | error e' =>
      show (Except.error e' : Except ε β) = .error e ↔ (Except.error e' : Except ε Unit) = .error e
      rw [Except.error.injEq, Except.error.injEq]
  | ok u => exact ⟨nofun, nofun⟩

/-- A declaration goes beyond a limit exactly if it is a function with too many locals. Lengths are
not limited. -/
theorem limitExceeded_iff (m : Module) (d : Decl) :
    (∃ text, m.declare d = .error (.limitExceeded text)) ↔ m.TooManyLocals d := by
  have hnever {α : Type} {x : Except ModuleError α} (h : FailsOnlyWith NotLimit x) :
      (∃ text, x = .error (.limitExceeded text)) ↔ False :=
    iff_false_intro fun ⟨text, htext⟩ => h _ htext text rfl
  have hchecked {α β : Type} {x : Except ModuleError Unit} {f : Unit → α} {g : α → β}
      (h : FailsOnlyWith NotLimit x) :
      FailsOnlyWith NotLimit ((x >>= fun u => pure (f u)).map g) :=
    (h.bind fun _ => failsOnlyWith_ok _).map g
  cases d with
  | importEntity scope name type =>
      exact hnever <| FailsOnlyWith.map ((m.checkImport_notLimit scope name type).bind fun _ =>
        (checkOnlyMemory_notLimit m.hasMemory type).bind fun _ => failsOnlyWith_ok _) _
  | importBatch scope entries =>
      exact hnever (hchecked (m.checkImports_notLimit scope m.hasMemory entries))
  | function type locals body options =>
      exact (exists_congr fun _ => map_bind_eq_error).trans
        (m.checkFunction_limit type locals options)
  | functionOfType typeIndex locals body options =>
      show (∃ text, (m.addFunctionOfType typeIndex locals body options).map _ = _) ↔
        ∃ type, m.types.get? typeIndex = some type ∧ ¬LocalsOk type locals
      unfold addFunctionOfType
      cases m.types.get? typeIndex with
      | none => exact ⟨nofun, nofun⟩
      | some type =>
          refine ((exists_congr fun _ => map_bind_eq_error).trans
            (m.checkFunction_limit type locals options)).trans ?_
          simp
  | table type exportName =>
      exact hnever (hchecked ((checkLimits_notLimit type.limits none).bind fun _ =>
        m.checkExportName?_notLimit exportName))
  | memory limits exportName =>
      refine hnever (hchecked ?_)
      unfold checkMemory
      cases m.hasMemory with
      | true => exact failsOnlyWith_error nofun
      | false =>
          exact (checkLimits_notLimit limits (some maxMemoryPages)).bind fun _ =>
            m.checkExportName?_notLimit exportName
  | global type init exportName =>
      exact hnever (hchecked ((m.checkInit_notLimit type.valType init).bind fun _ =>
        m.checkExportName?_notLimit exportName))
  | exportEntity name kind index =>
      exact hnever (hchecked ((m.checkExportName?_notLimit (some name)).bind fun _ =>
        m.checkIndex_notLimit kind index))
  | data offset bytes => exact hnever (hchecked (m.checkIndex_notLimit .memory 0))
  | custom name bytes => exact ⟨nofun, nofun⟩

end Module

end WasmAssembly
