import WasmAssembly.Proofs.Module.Resolve

/-!
# `WasmAssembly.Proofs.Module.Intact`: what appending may do to a module

`Module.appended` is what a declaration would append if nothing were checked. Whether that does
harm is told by comparing two modules: `Module.Intact m n` says that `n` keeps the rules of the
format, that whatever has an index in `m` still has it in `n`, and that a start function that `m`
has is still the start.

An index belongs to one import or one definition, not just to something of a type: `Occupant` tells
two functions of the same type apart. The accepted declarations leave a module intact, and they
append what would be appended without checks (`intact_of_declare`).
-/

set_option autoImplicit false

namespace WasmAssembly

/-! ### What an index belongs to -/

/-- What an index belongs to: an import, or something that the module defines. -/
inductive Occupant where
  | imported (i : Import)
  | function (f : Function)
  | table (type : TableType)
  | memory (limits : Limits)
  | global (g : Global)
  deriving DecidableEq

namespace Module

/-- What a module defines of a kind, in order. -/
def definitions (m : Module) : ExternalKind → List Occupant
  | .func => m.functions.toList.map .function
  | .table => m.tables.toList.map .table
  | .memory => m.memories.toList.map .memory
  | .global => m.globals.toList.map .global

/-- What the indices of a kind belong to, in the order of the indices. -/
def occupants (m : Module) (kind : ExternalKind) : List Occupant :=
  (m.imports.toList.filter (·.kind = kind)).map .imported ++ m.definitions kind

/-- A module `n` keeps the rules of the format, every index that `m` has given, and the start
function of `m`, if `m` has one. -/
structure Intact (m n : Module) : Prop where
  rules : n.Admissible
  indices : ∀ (kind : ExternalKind) (index : Nat) (occupant : Occupant),
    (m.occupants kind)[index]? = some occupant → (n.occupants kind)[index]? = some occupant
  start : ∀ index, m.start = some index → n.start = some index

/-- The module with what a declaration appends, whether or not it is accepted. -/
def appended (m : Module) (d : Decl) : Module :=
  (m.outcome d).module

/-! ### Additions -/

/-- The definitions of a kind are counted. -/
theorem length_definitions (m : Module) (kind : ExternalKind) :
    (m.definitions kind).length = m.definedCount kind := by
  cases kind <;> simp only [definitions, definedCount, List.length_map, Array.length_toList]

/-- An addition in keeping with its rule moves no index to something else. -/
theorem occupants_prefix_add {m : Module} {item : Item} (hadmits : m.Admits item)
    (kind : ExternalKind) : m.occupants kind <+: (m.add item).occupants kind := by
  cases item with
  | imported scope name type =>
      have hdefinitions : (m.add (.imported scope name type)).definitions kind
          = m.definitions kind := by
        cases kind <;> rfl
      rw [occupants, occupants, hdefinitions, imports_add_imported, Array.toList_push,
        List.filter_append, List.map_append]
      generalize hi : Import.mk scope name (m.imported.of type.kind) (registerType m.types type).1
        = i
      have hkind : i.kind = type.kind := hi ▸ kind_registerType m.types type
      by_cases hother : i.kind = kind
      · -- The module defines nothing of the kind, so the end of the imports is the end.
        have hnone : m.definitions kind = [] := by
          rw [← List.length_eq_zero_iff, length_definitions, ← hother, hkind]
          exact hadmits.2.1
        rw [hnone, List.append_nil, List.append_nil]
        exact List.prefix_append _ _
      · have hfilter : [i].filter (·.kind = kind) = [] :=
          List.filter_cons_of_neg (by simpa using hother)
        simp only [hfilter, List.map_nil, List.append_nil, List.prefix_rfl]
  | function _ _ _ _ | table _ | memory _ | global _ _ =>
      cases kind <;> simp [occupants, definitions, add, List.prefix_append_right_inj]
  | _ => exact List.prefix_rfl

namespace Intact

variable {m n : Module}

/-- What leaves a module intact can be followed by what leaves the result intact. -/
theorem trans {l : Module} (hlm : l.Intact m) (hmn : m.Intact n) : l.Intact n where
  rules := hmn.rules
  indices kind index occupant h :=
    hmn.indices kind index occupant (hlm.indices kind index occupant h)
  start index h := hmn.start index (hlm.start index h)

/-- A module that keeps the rules is intact as it is. -/
theorem refl (h : m.Admissible) : m.Intact m where
  rules := h
  indices _ _ _ h := h
  start _ h := h

/-- An addition in keeping with its rule leaves a module intact. -/
theorem add (h : m.WellFormed) {item : Item} (hadmits : m.Admits item) : m.Intact (m.add item) where
  rules := (h.add hadmits).toAdmissible
  indices kind index occupant hold := by
    have hlt := (List.getElem?_eq_some_iff.mp hold).1
    obtain ⟨more, hmore⟩ := occupants_prefix_add hadmits kind
    rw [← hmore, List.getElem?_append_left hlt, hold]
  start index hstart := by
    cases item with
    | start new =>
        -- A start is only added where there is none.
        rw [hadmits.1] at hstart
        exact absurd hstart nofun
    | _ => exact hstart

/-- Items that keep their rules one after the other leave a module intact. -/
theorem addAll (h : m.WellFormed) {items : List Item} (hadmits : m.AdmitsAll items) :
    m.Intact (m.addAll items) :=
  -- That the modules in between are well formed is carried along.
  (addAll_induction (P := fun n => n.WellFormed ∧ m.Intact n)
    (fun _ _ hn hitem => ⟨hn.1.add hitem, hn.2.trans (add hn.1 hitem)⟩)
    ⟨h, refl h.toAdmissible⟩ hadmits).2

end Intact

/-! ### Declarations -/

/-- An accepted declaration appends what it would append without checks. -/
theorem module_of_declare {m : Module} {d : Decl} {a : Accepted Reply} (h : m.declare d = .ok a) :
    a.module = m.appended d :=
  congrArg Accepted.module (eq_outcome_of_declare h)

/-- An accepted declaration leaves a module intact. -/
theorem intact_of_declare {m : Module} (hm : m.WellFormed) {d : Decl} {a : Accepted Reply}
    (h : m.declare d = .ok a) : m.Intact (m.appended d) := by
  obtain ⟨hadmits, hmodule⟩ := declare_ok hm.types h
  rw [← module_of_declare h, hmodule]
  exact .addAll hm hadmits

end Module

end WasmAssembly
