import WasmAssembly.Manifest
import WasmAssembly.Module.Layout
import WasmAssembly.Proofs.Module.Footprint
import WasmAssembly.Proofs.Module.Indices
import WasmAssembly.Proofs.Module.Session

/-!
# `WasmAssembly.Proofs.Module.Commute`: declarations that commute

Two declarations that append to different lists give the same module and the same answers in both
orders, if they are accepted in both (`declare_comm`). That the lists differ is not enough for
this: what a declaration adds and what it answers depend on the table of signatures and on numbers
of entities, and the number of entities of a kind grows with two lists.

`Elsewhere` says what leaves a declaration alone: additions to other lists, with no import of the
kind that it defines. Then its items and its answer are what they were (`items_addAll`,
`value_outcome_addAll`). Two declarations that are accepted in both orders are elsewhere to each
other, since an import would be refused after a definition of its kind (`elsewhere_of_declare`).
-/

set_option autoImplicit false

namespace WasmAssembly

namespace Module

/-! ### Answers -/

/-- A definition answers with the number of entities of its kind before it. -/
theorem value_outcome_of_defined {d : Decl} {kind : ExternalKind} (h : d.defined? = some kind)
    (m : Module) : (m.outcome d).value = .index (m.count kind) := by
  cases d with
  | function _ locals body options | functionOfType _ locals body options =>
      rw [← Option.some.inj h]
      exact congrArg Reply.index (value_pushFunction _ _ locals body options)
  | table _ exportName | memory _ exportName | global _ _ exportName =>
      rw [← Option.some.inj h]
      exact congrArg Reply.index (value_exportedAs _ _ exportName)
  | importEntity _ _ _ | importBatch _ _ | exportEntity _ _ _ | data _ _ | custom _ _ =>
      exact absurd h nofun

/-- The indices of imports depend on the numbers of imports alone. -/
theorem value_pushImports_congr {m n : Module} (h : m.imported = n.imported) (scope : String)
    (entries : List (String × ExternType FuncType)) :
    (m.pushImports scope entries).value = (n.pushImports scope entries).value := by
  induction entries generalizing m n with
  | nil => rfl
  | cons entry entries ih =>
      obtain ⟨name, type⟩ := entry
      have hfirst : (m.pushImport scope name type).value = (n.pushImport scope name type).value :=
        congrArg (·.of type.kind) h
      have himported : (m.pushImport scope name type).module.imported
          = (n.pushImport scope name type).module.imported :=
        congrArg (·.increment type.kind) h
      rw [pushImports, pushImports]
      simp only [hfirst, ih himported]

/-! ### What leaves a declaration alone -/

/-- Items go to other lists than a declaration, and none of them imports what is of the kind that
the declaration defines. -/
structure Elsewhere (items : List Item) (d : Decl) : Prop where
  lists : ∀ item ∈ items, item.appendsTo.Disjoint d.appendsTo
  kinds : ∀ item ∈ items, ∀ kind, d.defined? = some kind → item.kind? ≠ some kind

namespace Elsewhere

variable {items : List Item} {d : Decl}

/-- A list that a declaration appends to gets none of the items elsewhere. -/
theorem not_mem (h : Elsewhere items d) {list : ModuleList} (hlist : list ∈ d.appendsTo) :
    ∀ item ∈ items, list ∉ item.appendsTo :=
  fun item hitem hmem => h.lists item hitem hmem hlist

/-- Items elsewhere do not change the number of entities of the kind that is defined. -/
theorem count (h : Elsewhere items d) (m : Module) {kind : ExternalKind}
    (hkind : d.defined? = some kind) : (m.addAll items).count kind = m.count kind := by
  have hnone : items.countP (·.kind? = some kind) = 0 := by
    rw [List.countP_eq_zero]
    intro item hitem
    rw [decide_eq_true_eq]
    exact h.kinds item hitem kind hkind
  rw [count_addAll, hnone, Nat.add_zero]

end Elsewhere

/-- Signatures keep their type indices whatever is added. -/
theorem types_prefix_addAll (m : Module) (items : List Item) :
    m.types.toList <+: (m.addAll items).types.toList := by
  induction items generalizing m with
  | nil => exact List.prefix_rfl
  | cons item items ih => exact (types_prefix_add m item).trans (ih (m.add item))

/-- A declaration adds what it would have added before. -/
theorem items_addAll {m : Module} {items : List Item} {d : Decl} {a : Accepted Reply}
    (h : Elsewhere items d) (hd : m.declare d = .ok a) : (m.addAll items).items d = m.items d := by
  cases d with
  | function type locals body options =>
      have htypes : (m.addAll items).types = m.types :=
        same_addAll m (h.not_mem List.mem_cons_self)
      rw [Module.items, Module.items, functionItems, functionItems, htypes, h.count m rfl]
  | functionOfType typeIndex locals body options =>
      -- The signature was in the table before, and it stays where it is.
      obtain ⟨b, hb, rfl⟩ := map_eq_ok.mp hd
      obtain ⟨type, htype, -, rfl⟩ := addFunctionOfType_eq_ok.mp hb
      have hstill := TypeTable.get?_of_prefix (types_prefix_addAll m items) htype
      rw [Module.items, Module.items, htype, hstill]
      simp only [functionItems, h.count m rfl]
  | table _ _ | memory _ _ | global _ _ _ => rw [Module.items, Module.items, h.count m rfl]
  | importEntity _ _ _ | importBatch _ _ | exportEntity _ _ _ | data _ _ | custom _ _ => rfl

/-- A declaration answers what it would have answered before. -/
theorem value_outcome_addAll {items : List Item} {d : Decl} (h : Elsewhere items d) (m : Module) :
    ((m.addAll items).outcome d).value = (m.outcome d).value := by
  cases hdefined : d.defined? with
  | some kind =>
      rw [value_outcome_of_defined hdefined, value_outcome_of_defined hdefined,
        h.count m hdefined]
  | none =>
      cases d with
      | importEntity scope name type =>
          obtain ⟨-, himported⟩ := same_addAll m (h.not_mem List.mem_cons_self)
          exact congrArg (fun counts => Reply.index (counts.of type.kind)) himported
      | importBatch scope entries =>
          cases entries with
          | nil =>
              -- An empty batch appends to no list, so imports may well have been added.
              rfl
          | cons entry entries =>
              have himports :
                  ModuleList.imports ∈ (Decl.importBatch scope (entry :: entries)).appendsTo :=
                List.mem_flatMap.mpr ⟨entry, List.mem_cons_self, List.mem_cons_self⟩
              obtain ⟨-, himported⟩ := same_addAll m (h.not_mem himports)
              exact congrArg Reply.indices (value_pushImports_congr himported scope _)
      | data offset bytes =>
          have hdata : (m.addAll items).data = m.data :=
            same_addAll m (h.not_mem List.mem_cons_self)
          exact congrArg (fun data => Reply.index data.size) hdata
      | exportEntity _ _ _ | custom _ _ => rfl
      | function _ _ _ _ | functionOfType _ _ _ _ | table _ _ | memory _ _ | global _ _ _ =>
          exact absurd hdefined nofun

/-! ### Two orders -/

/-- If `a` is accepted after `b`, then `a` imports nothing of the kind that `b` defines. -/
theorem elsewhere_of_declare {m : Module} (hm : m.types.Lawful) {a b : Decl}
    {rb ra : Accepted Reply} (hlists : a.appendsTo.Disjoint b.appendsTo) (hb : m.declare b = .ok rb)
    (ha : rb.module.declare a = .ok ra) : Elsewhere (m.items a) b where
  lists item hitem := List.disjoint_of_subset_left (appendsTo_of_mem_items hitem) hlists
  kinds item hitem kind hdefined hkind := by
    obtain hdefines | ⟨scope, name, type, rfl, rfl⟩ := Item.defined_or_imported hkind
    · exact hlists (appendsTo_of_mem_items hitem (Item.mem_appendsTo_of_defined hdefines))
        (Decl.mem_appendsTo_of_defined hdefined)
    · -- The import has its turn in a module that has the definition.
      obtain ⟨hadmits, hmodule⟩ := declare_ok hm hb
      have hlawful : rb.module.types.Lawful := hmodule ▸ types_lawful_addAll hm hadmits
      have hnone := definedCount_eq_zero_of_mem (declare_ok hlawful ha).1 (imported_mem_items hitem)
      obtain ⟨definition, hmem, hdefinition⟩ := exists_mem_items_of_defined hb hdefined
      have hone := definedCount_pos_of_mem (m := m) hmem hdefinition
      rw [← hmodule] at hone
      omega

/-- Declarations that append to different lists commute, if both orders are accepted. -/
theorem declare_comm {m : Module} (hm : m.types.Lawful) {a b : Decl}
    (hlists : a.appendsTo.Disjoint b.appendsTo) {ra rb rab rba : Accepted Reply}
    (ha : m.declare a = .ok ra) (hab : ra.module.declare b = .ok rab)
    (hb : m.declare b = .ok rb) (hba : rb.module.declare a = .ok rba) :
    rab.module = rba.module ∧ ra.value = rba.value ∧ rab.value = rb.value := by
  obtain ⟨hadmitsA, hmoduleA⟩ := declare_ok hm ha
  obtain ⟨hadmitsB, hmoduleB⟩ := declare_ok hm hb
  have helseA := elsewhere_of_declare hm hlists hb hba
  have helseB := elsewhere_of_declare hm (List.disjoint_symm hlists) ha hab
  -- Each of the two adds and answers the same, whichever comes first.
  have hmoduleAB : rab.module = (m.addAll (m.items a)).addAll (m.items b) := by
    have hlawful := types_lawful_addAll hm hadmitsA
    rw [hmoduleA] at hab
    rw [(declare_ok hlawful hab).2, items_addAll helseA hb]
  have hmoduleBA : rba.module = (m.addAll (m.items b)).addAll (m.items a) := by
    have hlawful := types_lawful_addAll hm hadmitsB
    rw [hmoduleB] at hba
    rw [(declare_ok hlawful hba).2, items_addAll helseB ha]
  refine ⟨?_, ?_, ?_⟩
  · rw [hmoduleAB, hmoduleBA]
    refine addAll_comm m ?_
    intro x hx y hy
    exact List.disjoint_of_subset_right (appendsTo_of_mem_items hy) (helseA.lists x hx)
  · rw [eq_outcome_of_declare ha, eq_outcome_of_declare hba, hmoduleB,
      value_outcome_addAll helseB]
  · rw [eq_outcome_of_declare hb, eq_outcome_of_declare hab, hmoduleA,
      value_outcome_addAll helseA]

end Module

namespace Session

/-- The command of a declaration succeeds if the declaration is accepted. -/
theorem declare_of_run {s s' : Session} {d : Decl} {reply : Reply}
    (h : (Command.perform d).run s = .ok reply s') :
    ∃ a, s.module.declare d = .ok a ∧ reply = a.value ∧ s'.module = a.module := by
  rw [Command.run_perform] at h
  obtain ⟨a, ha, rfl, rfl⟩ := settle_eq_ok.mp h
  exact ⟨a, ha, rfl, rfl⟩

/-- In every session that declarations lead to: if two declarations append to different lists and
both orders succeed, the order makes no difference, neither to the module nor to the answers. -/
theorem perform_comm (ds : List Decl) (a b : Decl) (hlists : a.appendsTo.Disjoint b.appendsTo)
    {replyA replyB replyA' replyB' : Reply} {sA sAB sB sBA : Session}
    (ha : (Command.perform a).run (start.run ds) = .ok replyA sA)
    (hab : (Command.perform b).run sA = .ok replyB sAB)
    (hb : (Command.perform b).run (start.run ds) = .ok replyB' sB)
    (hba : (Command.perform a).run sB = .ok replyA' sBA) :
    sAB.module = sBA.module ∧ replyA = replyA' ∧ replyB = replyB' ∧
      sAB.module.serialize = sBA.module.serialize ∧
      sAB.module.manifest = sBA.module.manifest := by
  have hm : (start.run ds).module.types.Lawful := (wellFormed_module ds).types
  obtain ⟨ra, hra, rfl, hmoduleA⟩ := declare_of_run ha
  obtain ⟨rab, hrab, rfl, hmoduleAB⟩ := declare_of_run hab
  obtain ⟨rb, hrb, rfl, hmoduleB⟩ := declare_of_run hb
  obtain ⟨rba, hrba, rfl, hmoduleBA⟩ := declare_of_run hba
  rw [hmoduleA] at hrab
  rw [hmoduleB] at hrba
  obtain ⟨hmodule, hvalueA, hvalueB⟩ := Module.declare_comm hm hlists hra hrab hrb hrba
  have hsame : sAB.module = sBA.module := by
    rw [hmoduleAB, hmodule, hmoduleBA]
  exact ⟨hsame, hvalueA, hvalueB, congrArg Module.serialize hsame, congrArg Module.manifest hsame⟩

/-- A table and a global are imported before or after the start function is defined. -/
theorem perform_comm_of_batch :
    (start.run [.importEntity "env" "f" (.func .empty),
        .importBatch "env" [("t", .table ⟨.funcref, ⟨1, none⟩⟩), ("g", .global ⟨.i32, false⟩)],
        .function .empty [] [] ⟨none, true⟩]).module
      = (start.run [.importEntity "env" "f" (.func .empty),
        .function .empty [] [] ⟨none, true⟩,
        .importBatch "env"
          [("t", .table ⟨.funcref, ⟨1, none⟩⟩), ("g", .global ⟨.i32, false⟩)]]).module := by
  let before : List Decl := [.importEntity "env" "f" (.func .empty)]
  let batch : Decl :=
    .importBatch "env" [("t", .table ⟨.funcref, ⟨1, none⟩⟩), ("g", .global ⟨.i32, false⟩)]
  let main : Decl := .function .empty [] [] ⟨none, true⟩
  have hlists : batch.appendsTo.Disjoint main.appendsTo := List.disjoint_left.mpr (by decide)
  have hbatch : (Command.perform batch).run (start.run before)
      = .ok (.indices [0, 0]) (start.run (before ++ [batch])) := rfl
  have hmainThen : (Command.perform main).run (start.run (before ++ [batch]))
      = .ok (.index 1) (start.run (before ++ [batch, main])) := rfl
  have hmain : (Command.perform main).run (start.run before)
      = .ok (.index 1) (start.run (before ++ [main])) := rfl
  have hbatchThen : (Command.perform batch).run (start.run (before ++ [main]))
      = .ok (.indices [0, 0]) (start.run (before ++ [main, batch])) := rfl
  exact (perform_comm before batch main hlists hbatch hmainThen hmain hbatchThen).1

/-- Two custom sections go to one list, and there the order shows. -/
example : (start.run [.custom "a" [], .custom "b" []]).module
    ≠ (start.run [.custom "b" [], .custom "a" []]).module := by
  decide

end Session

end WasmAssembly
