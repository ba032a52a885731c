import WasmAssembly.Proofs.Module.Additions

/-!
# `WasmAssembly.Proofs.Module.Run`: runs of declarations

A run is any list of declarations, each made in the module that the ones before it have left. A
refused declaration leaves the module as it was. The modules that can be built are those in which
runs from `Module.empty` end.

`Module.trace` lists what a run adds. `run_eq_addAll` says that a run is the addition of its trace,
each item in keeping with its rule, and `run_induction` is what follows: what every addition
preserves holds after every run.
-/

set_option autoImplicit false

namespace WasmAssembly.Module

/-- The module after a declaration, which may be refused. -/
def after (m : Module) (d : Decl) : Module :=
  match m.declare d with
  | .ok a => a.module
  | .error _ => m

/-- The module after declarations made one after the other. -/
def run (m : Module) (ds : List Decl) : Module :=
  ds.foldl after m

/-- What a declaration adds, which is nothing if it is refused. -/
def additions (m : Module) (d : Decl) : List Item :=
  match m.declare d with
  | .ok _ => m.items d
  | .error _ => []

/-- What declarations made one after the other add. -/
def trace (m : Module) : List Decl → List Item
  | [] => []
  | d :: ds => m.additions d ++ (m.after d).trace ds

/-- A run of no declarations leaves the module as it is. -/
@[simp]
theorem run_nil (m : Module) : m.run [] = m := rfl

/-- A run goes on from where its first declaration leads. -/
@[simp]
theorem run_cons (m : Module) (d : Decl) (ds : List Decl) : m.run (d :: ds) = (m.after d).run ds :=
  rfl

/-! ### Runs as additions -/

/-- Additions keep the table of signatures lawful. -/
theorem types_lawful_add {m : Module} (hm : m.types.Lawful) (item : Item) :
    (m.add item).types.Lawful := by
  cases item with
  | signature type => exact hm.register type
  | imported scope name type =>
      cases type with
      | func type => exact hm.register type
      | table _ | memory _ | global _ => exact hm
  | _ => exact hm

/-- A declaration adds its items if it is accepted, each in keeping with its rule, and nothing
otherwise. -/
theorem after_eq_addAll {m : Module} (hm : m.types.Lawful) (d : Decl) :
    m.AdmitsAll (m.additions d) ∧ m.after d = m.addAll (m.additions d) := by
  rw [after, additions]
  cases h : m.declare d with
  | ok a => exact declare_ok hm h
  | error e => exact ⟨trivial, rfl⟩

/-- Additions keep the table of signatures lawful. -/
theorem types_lawful_addAll {m : Module} (hm : m.types.Lawful) {items : List Item}
    (h : m.AdmitsAll items) : (m.addAll items).types.Lawful :=
  addAll_induction (P := fun n => n.types.Lawful) (fun _ item hn _ => types_lawful_add hn item) hm h

/-- A run adds its trace, and each item of it keeps its rule. -/
theorem run_eq_addAll {m : Module} (hm : m.types.Lawful) (ds : List Decl) :
    m.AdmitsAll (m.trace ds) ∧ m.run ds = m.addAll (m.trace ds) := by
  induction ds generalizing m with
  | nil => exact ⟨trivial, rfl⟩
  | cons d ds ih =>
      obtain ⟨hfirst, hafter⟩ := after_eq_addAll hm d
      -- The rest of the run starts from a lawful table again.
      have hlawful : (m.after d).types.Lawful := hafter ▸ types_lawful_addAll hm hfirst
      obtain ⟨hrest, hrun⟩ := ih hlawful
      rw [trace, admitsAll_append, addAll_append, run_cons, hrun, ← hafter]
      exact ⟨⟨hfirst, hrest⟩, rfl⟩

/-- What every addition preserves is preserved by every run. -/
theorem run_induction {P : Module → Prop}
    (hadd : ∀ (m : Module) (item : Item), P m → m.Admits item → P (m.add item))
    {m : Module} (hlawful : m.types.Lawful) (hm : P m) (ds : List Decl) : P (m.run ds) := by
  obtain ⟨hadmits, hrun⟩ := run_eq_addAll hlawful ds
  rw [hrun]
  exact addAll_induction hadd hm hadmits

end WasmAssembly.Module
