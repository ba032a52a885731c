import WasmAssembly.Proofs.Module.Additions
import WasmAssembly.Proofs.Module.Session

/-!
# `WasmAssembly.Proofs.Module.Batch`: a batch of imports, and its entries one by one

A batch is checked as a whole before anything is imported: each entry is looked at in the module as
it is then, and a flag stands for the memories among the entries in front of it. If the entries are
imported one by one (`importEach`), each is looked at in the module that has the ones before it.

The checks of an import depend on what the module defines, which imports do not change, and on
whether there is a memory, which the flag tells. So a batch is its first entry and then the batch of
the others (`addImports_cons`), and by induction it is the entries one by one: it answers the same
if they all succeed, and otherwise gives the error of the first one that fails (`FirstFailure`),
without a change (`importBatch_iff_importEach`).
-/

set_option autoImplicit false

namespace WasmAssembly

namespace Module

/-! ### What the checks of a batch depend on -/

/-- The check of an import looks at the numbers of definitions alone. -/
theorem checkImport_congr {m n : Module}
    (h : ∀ kind, m.definedCount kind = n.definedCount kind) (scope name : String)
    (type : ExternType FuncType) :
    m.checkImport scope name type = n.checkImport scope name type := by
  rw [checkImport, checkImport, h]

/-- The checks of a batch look at the numbers of definitions alone. -/
theorem checkImports_congr {m n : Module}
    (h : ∀ kind, m.definedCount kind = n.definedCount kind) (scope : String) (hasMemory : Bool)
    (entries : List (String × ExternType FuncType)) :
    m.checkImports scope hasMemory entries = n.checkImports scope hasMemory entries := by
  induction entries generalizing hasMemory with
  | nil => rfl
  | cons entry entries ih =>
      obtain ⟨name, type⟩ := entry
      rw [checkImports, checkImports, checkImport_congr h]
      simp only [ih]

/-- There is a memory if there was one or one is imported. -/
theorem hasMemory_pushImport (m : Module) (scope name : String) (type : ExternType FuncType) :
    (m.pushImport scope name type).module.hasMemory
      = (m.hasMemory || type.kind == .memory) := by
  have hcount := count_add m (.imported scope name type) .memory
  show decide (0 < (m.add (.imported scope name type)).count .memory) = _
  rw [hcount, hasMemory]
  by_cases hkind : type.kind = .memory
  · simp [Item.kind?, Item.entity?, hkind]
  · simp [Item.kind?, Item.entity?, hkind]

/-- The entries behind an import pass the same checks before it, with a memory counted in. -/
theorem checkImports_pushImport (m : Module) (scope name : String) (type : ExternType FuncType)
    (entries : List (String × ExternType FuncType)) :
    (m.pushImport scope name type).module.checkImports scope
        (m.pushImport scope name type).module.hasMemory entries
      = m.checkImports scope (m.hasMemory || type.kind == .memory) entries := by
  rw [hasMemory_pushImport]
  exact checkImports_congr (definedCount_add_imported m scope name type) scope _ entries

/-- A batch is its first entry, imported by itself, and the batch of the others after it. -/
theorem addImports_cons (m : Module) (scope name : String) (type : ExternType FuncType)
    (entries : List (String × ExternType FuncType)) :
    m.addImports scope ((name, type) :: entries)
      = Accepted.andThen (m.addImport scope name type)
          (fun n _ => n.addImports scope entries) List.cons := by
  have hrest := checkImports_pushImport m scope name type entries
  rw [addImports, checkImports, Accepted.andThen, addImport]
  -- The checks are made in the same order, and only what passes them all is appended.
  cases m.checkImport scope name type with
  | error e => rfl
  | ok _ =>
      cases checkOnlyMemory m.hasMemory type with
      | error e => rfl
      | ok _ =>
          show (m.checkImports scope (m.hasMemory || type.kind == .memory) entries >>= _)
            = ((m.pushImport scope name type).module.addImports scope entries >>= _)
          rw [addImports, hrest]
          cases m.checkImports scope (m.hasMemory || type.kind == .memory) entries with
          | error e => rfl
          | ok _ => rfl

end Module

namespace Command

/-- Imports entities of one namespace, each by itself. The first one that fails is the last. -/
def importEach (scope : String) : List (String × ExternType FuncType) → Command (List Nat)
  | [] => return []
  | (name, type) :: rest => do
    let first ← importEntity scope name type
    let others ← importEach scope rest
    return first :: others

/-- Of entities that are imported each by itself, one fails with an error after those before it
have succeeded. -/
def FirstFailure (scope : String) (s : Session) (entries : List (String × ExternType FuncType))
    (e : ModuleError) : Prop :=
  ∃ before name type after is t, entries = before ++ (name, type) :: after ∧
    (importEach scope before).run s = .ok is t ∧ (importEntity scope name type).run t = .error e t

variable {scope name : String} {type : ExternType FuncType}
  {entries : List (String × ExternType FuncType)} {s s' : Session} {e : ModuleError}

/-- Entries imported one by one are imported if the first one is, and the others behind it. -/
theorem run_importEach_cons_eq_ok {is : List Nat} :
    (importEach scope ((name, type) :: entries)).run s = .ok is s' ↔
      ∃ i js t, (importEntity scope name type).run s = .ok i t ∧
        (importEach scope entries).run t = .ok js s' ∧ i :: js = is := by
  rw [importEach, run_bind_eq_ok]
  constructor
  · rintro ⟨i, t, hfirst, h⟩
    obtain ⟨js, u, hothers, h⟩ := run_bind_eq_ok.mp h
    obtain ⟨rfl, rfl⟩ := EStateM.Result.ok.inj h
    exact ⟨i, js, t, hfirst, hothers, rfl⟩
  · rintro ⟨i, js, t, hfirst, hothers, rfl⟩
    exact ⟨i, t, hfirst, run_bind_eq_ok.mpr ⟨js, s', hothers, rfl⟩⟩

/-- No entry fails where there is none. -/
theorem not_firstFailure_nil : ¬FirstFailure scope s [] e := by
  rintro ⟨before, name, type, after, is, t, hentries, -⟩
  exact List.append_ne_nil_of_right_ne_nil before (List.cons_ne_nil _ _) hentries.symm

/-- The first failure is at the first entry, or it is the first one of those behind. -/
theorem firstFailure_cons :
    FirstFailure scope s ((name, type) :: entries) e ↔
      (importEntity scope name type).run s = .error e s ∨
        ∃ i t, (importEntity scope name type).run s = .ok i t ∧
          FirstFailure scope t entries e := by
  constructor
  · rintro ⟨before, name', type', after, is, t, hentries, hbefore, hentry⟩
    cases before with
    | nil =>
        obtain ⟨⟨rfl, rfl⟩, rfl⟩ := List.cons.inj hentries
        obtain ⟨-, rfl⟩ := EStateM.Result.ok.inj hbefore
        exact .inl hentry
    | cons first before =>
        obtain ⟨rfl, rfl⟩ := List.cons.inj hentries
        obtain ⟨i, js, u, hfirst, hothers, -⟩ := run_importEach_cons_eq_ok.mp hbefore
        exact .inr ⟨i, u, hfirst, before, name', type', after, js, t, rfl, hothers, hentry⟩
  · rintro (hentry | ⟨i, u, hfirst, before, name', type', after, js, t, rfl, hothers, hentry⟩)
    · exact ⟨[], name, type, entries, [], s, rfl, rfl, hentry⟩
    · exact ⟨(name, type) :: before, name', type', after, i :: js, t, rfl,
        run_importEach_cons_eq_ok.mpr ⟨i, js, u, hfirst, hothers, rfl⟩, hentry⟩

/-- A batch succeeds as its entries do. -/
theorem run_importBatch_eq_ok {is : List Nat} :
    (importBatch scope entries).run s = .ok is s' ↔
      (importEach scope entries).run s = .ok is s' := by
  -- On the entries, for every session: the others follow the first one in the session it leaves.
  induction entries generalizing s is with
  | nil => rfl
  | cons entry entries ih =>
      obtain ⟨name, type⟩ := entry
      rw [run_importBatch, Module.addImports_cons, Session.settle_andThen_eq_ok,
        run_importEach_cons_eq_ok]
      simp only [← run_importEntity, ← run_importBatch, ih]

/-- A batch fails as the first of its entries that does, and changes nothing. -/
theorem run_importBatch_eq_error :
    (importBatch scope entries).run s = .error e s' ↔
      s' = s ∧ FirstFailure scope s entries e := by
  induction entries generalizing s s' with
  | nil => exact ⟨nofun, fun h => absurd h.2 not_firstFailure_nil⟩
  | cons entry entries ih =>
      obtain ⟨name, type⟩ := entry
      rw [run_importBatch, Module.addImports_cons, Session.settle_andThen_eq_error,
        firstFailure_cons]
      simp only [← run_importEntity, ← run_importBatch, ih, true_and]

/-- A batch is its entries imported one by one, all or none. In every session it succeeds exactly if
they do, and then gives the same indices and leaves the same session. It fails with an error exactly
if this is the error of the first entry that fails after those before it have succeeded, and then
leaves the session as it was. -/
theorem importBatch_iff_importEach (s : Session) (scope : String)
    (entries : List (String × ExternType FuncType)) :
    (∀ is s', (importBatch scope entries).run s = .ok is s' ↔
      (importEach scope entries).run s = .ok is s') ∧
    ∀ e s', (importBatch scope entries).run s = .error e s' ↔
      s' = s ∧ FirstFailure scope s entries e := by
  constructor
  · intro is s'
    exact run_importBatch_eq_ok
  · intro e s'
    exact run_importBatch_eq_error

/-- The second memory of a batch is refused, and the first one is not imported either. -/
example : (importBatch "env" [("a", .memory ⟨1, none⟩), ("b", .memory ⟨1, none⟩)]).run .start
    = .error .duplicateMemory .start := rfl

end Command

end WasmAssembly
