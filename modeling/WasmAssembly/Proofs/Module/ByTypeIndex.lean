import WasmAssembly.Proofs.Module.Session
import WasmAssembly.Proofs.Module.WellFormed
import WasmAssembly.Proofs.TypeTable.Numbering

/-!
# `WasmAssembly.Proofs.Module.ByTypeIndex`: functions defined by signature or by type index

A function can be defined by its signature or by the type index of it. The first way checks the
signature that is given and then registers it; the second one checks the signature that is in the
table and registers nothing.

In a lawful table an index that a lookup gives is the index of that very signature, so both ways
check the same and append the same (`addFunction_of_lookup`). A signature that is not found is put
at the end, where the second way would find it (`addFunction_of_new`). Nothing that is checked
depends on the table, so it makes no difference that the registration comes after the checks, except
that a refused function does not leave its signature behind (`function_iff_functionOfType`).
-/

set_option autoImplicit false

namespace WasmAssembly

namespace Module

variable {m : Module} {type : FuncType}

/-- A function whose signature is known can as well be defined by type index. -/
theorem addFunction_of_lookup (hm : m.types.Lawful) {index : Nat}
    (h : m.types.lookup type = some index) (locals : List LocalRun) (body : Bytes)
    (options : FunctionOptions) :
    m.addFunction type locals body options = m.addFunctionOfType index locals body options := by
  have hget := TypeTable.get?_of_lookup hm h
  rw [addFunction, addFunctionOfType, TypeTable.register_of_lookup h, hget]

/-- A function whose signature is new can as well be defined by type index after its signature has
been put into the table. -/
theorem addFunction_of_new (h : m.types.lookup type = none) (locals : List LocalRun)
    (body : Bytes) (options : FunctionOptions) :
    m.addFunction type locals body options
      = { m with types := m.types.push type }.addFunctionOfType m.types.size locals body
          options := by
  have hget := TypeTable.get?_push_size m.types type
  rw [addFunction, addFunctionOfType, TypeTable.register_of_lookup_eq_none h, hget]
  rfl

/-- A type index that is not in the table is refused before anything else. -/
theorem addFunctionOfType_of_size_le {index : Nat} (h : m.types.size ≤ index)
    (locals : List LocalRun) (body : Bytes) (options : FunctionOptions) :
    m.addFunctionOfType index locals body options = .error (.unknownType index) := by
  have hget : m.types.get? index = none := by
    rw [← Option.not_isSome_iff_eq_none, TypeTable.isSome_get?_iff]
    exact Nat.not_lt.mpr h
  rw [addFunctionOfType, hget]

end Module

namespace Session

/-- The session whose table of signatures has one more, at its end. -/
def withSignature (s : Session) (type : FuncType) : Session :=
  { s with module := { s.module with types := s.module.types.push type } }

/-- What is settled does not depend on the table of signatures, if it succeeds. -/
theorem settle_withSignature_eq_ok {α : Type} (s : Session) (type : FuncType)
    (x : Except ModuleError (Accepted α)) (a : α) (s' : Session) :
    (s.withSignature type).settle x = .ok a s' ↔ s.settle x = .ok a s' := by
  rw [settle_eq_ok, settle_eq_ok]
  rfl

end Session

namespace Command

open Session (start)

/-- In every session that declarations lead to, the two ways to define a function agree. If the
signature is in the table, they give the same index or the same error and leave the same session. If
it is not, the function is accepted as it is by type index once its signature is the next one of the
table, and if it is refused, it is for the same reason, and the signature is not in the table. An
index that is not in the table is refused and changes nothing. -/
theorem function_iff_functionOfType (ds : List Decl) (type : FuncType) (locals : List LocalRun)
    (body : Bytes) (options : FunctionOptions) :
    let s := start.run ds
    let next := s.module.types.size
    (∀ index, s.module.types.lookup type = some index →
      (function type locals body options).run s
        = (functionOfType index locals body options).run s) ∧
    (s.module.types.lookup type = none →
      (s.withSignature type).module.types.toList = s.module.types.toList ++ [type] ∧
      (∀ index s', (function type locals body options).run s = .ok index s' ↔
        (functionOfType next locals body options).run (s.withSignature type) = .ok index s') ∧
      ∀ e s', (function type locals body options).run s = .error e s' →
        (functionOfType next locals body options).run (s.withSignature type)
            = .error e (s.withSignature type) ∧
          s' = s ∧ s'.module.types.lookup type = none ∧ type ∉ s'.module.types.toList) ∧
    ∀ index, next ≤ index →
      (functionOfType index locals body options).run s = .error (.unknownType index) s := by
  intro s next
  have hlawful : s.module.types.Lawful := (Session.wellFormed_module ds).types
  refine ⟨?_, ?_, ?_⟩
  · intro index hlookup
    rw [run_function, run_functionOfType, Module.addFunction_of_lookup hlawful hlookup]
  · intro hlookup
    have hsame := Module.addFunction_of_new hlookup locals body options
    rw [run_function, run_functionOfType, hsame]
    refine ⟨TypeTable.toList_push _, ?_, ?_⟩
    · intro index s'
      exact (Session.settle_withSignature_eq_ok s type _ index s').symm
    · intro e s' h
      obtain ⟨herror, rfl⟩ := Session.settle_eq_error.mp h
      exact ⟨Session.settle_eq_error.mpr ⟨herror, rfl⟩, rfl, hlookup,
        (TypeTable.lookup_eq_none_iff hlawful type).mp hlookup⟩
  · intro index hindex
    rw [run_functionOfType, Module.addFunctionOfType_of_size_le hindex]
    rfl

/-- The signature of an imported function is in the table, and the next index is that of one which
is not. -/
theorem function_iff_functionOfType_of_import :
    let s := start.run [.importEntity "env" "f" (.func .empty)]
    let options : FunctionOptions := ⟨none, false⟩
    (function .empty [] [] options).run s = (functionOfType 0 [] [] options).run s ∧
      (∀ s', (function ⟨[.i32], []⟩ [] [] options).run s = .ok 1 s' ↔
        (functionOfType 1 [] [] options).run (s.withSignature ⟨[.i32], []⟩) = .ok 1 s') ∧
      (functionOfType 1 [] [] options).run s = .error (.unknownType 1) s := by
  intro s options
  let ds : List Decl := [.importEntity "env" "f" (.func .empty)]
  have hknown : (start.run ds).module.types.lookup .empty = some 0 := by decide +kernel
  have hnew : (start.run ds).module.types.lookup ⟨[.i32], []⟩ = none := by decide +kernel
  have hsize : (start.run ds).module.types.size = 1 := by decide +kernel
  obtain ⟨hsame, -, hunknown⟩ := function_iff_functionOfType ds .empty [] [] options
  obtain ⟨-, hnext, -⟩ := function_iff_functionOfType ds ⟨[.i32], []⟩ [] [] options
  obtain ⟨-, haccepted, -⟩ := hnext hnew
  rw [hsize] at haccepted
  exact ⟨hsame 0 hknown, haccepted 1, hunknown 1 (Nat.le_of_eq hsize)⟩

end Command

end WasmAssembly
