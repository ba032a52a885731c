import WasmAssembly.Proofs.Module.Resolve

/-!
# `WasmAssembly.Proofs.Module.Indices`: the indices that declarations give

The answer to an accepted declaration has one index for each entity that is declared, and the index
is the number of entities of that kind just before it (`indices_declare`). In the module that
results, and in all that come after, it stands for that entity (`resolve_declare`,
`Extends.resolve`).
-/

set_option autoImplicit false

namespace WasmAssembly

/-- The indices of entities in an answer. Data segments have numbers of their own, which are not
indices of entities. -/
def Decl.indices : Decl → Reply → List Nat
  | .data _ _, _ => []
  | _, .index i => [i]
  | _, .indices is => is
  | _, .done => []

namespace Module

/-- The entities that a declaration declares, in order. -/
def entities (m : Module) : Decl → List (ExternType FuncType)
  | .importEntity _ _ type => [type]
  | .importBatch _ entries => entries.map Prod.snd
  | .function type _ _ _ => [.func type]
  | .functionOfType typeIndex _ _ _ => (m.types.get? typeIndex).toList.map .func
  | .table type _ => [.table type]
  | .memory limits _ => [.memory limits]
  | .global type _ _ => [.global type]
  | .exportEntity _ _ _ | .data _ _ | .custom _ _ => []

/-- The number of entities of a kind just before the one at a position among those that are being
declared. -/
def countBefore (m : Module) (entities : List (ExternType FuncType)) (pos : Nat)
    (kind : ExternalKind) : Nat :=
  m.count kind + (entities.take pos).countP (·.kind = kind)

/-! ### What a new index stands for -/

/-- An entity is of the same kind with its signature spelled out. -/
theorem kind_of_spellOut {m : Module} {type : ExternType Nat} {e : ExternType FuncType}
    (h : m.spellOut type = some e) : type.kind = e.kind := by
  cases type with
  | func typeIndex =>
      obtain ⟨signature, -, rfl⟩ := Option.map_eq_some_iff.mp h
      rfl
  | table _ | memory _ | global _ =>
      rw [← Option.some.inj h]
      rfl

/-- The entity that is added can be spelled out where it has been added. -/
theorem spellOut_stored {m : Module} (hm : m.types.Lawful) {item : Item} (hadmits : m.Admits item)
    {e : ExternType FuncType} (h : item.entity? = some e) :
    ∃ type, m.stored? item = some type ∧ (m.add item).spellOut type = some e := by
  cases item with
  | imported scope name type =>
      refine ⟨_, rfl, ?_⟩
      rw [← Option.some.inj h]
      cases type with
      | func signature =>
          have hget := TypeTable.get?_register hm signature
          show ((m.types.register signature).2.get? (m.types.register signature).1).map _ = _
          rw [hget, Option.map_some]
      | table _ | memory _ | global _ => rfl
  | function type typeIndex _ _ =>
      refine ⟨.func typeIndex, rfl, ?_⟩
      rw [← Option.some.inj h]
      exact congrArg (Option.map ExternType.func) hadmits.1
  | table _ | memory _ | global _ _ => exact ⟨_, rfl, h⟩
  | _ => exact absurd h nofun

/-- The number of entities of its kind is the index of an entity that is added. -/
theorem resolve_add {m : Module} (hm : m.WellFormed) {item : Item} (hadmits : m.Admits item)
    {e : ExternType FuncType} (h : item.entity? = some e) :
    (m.add item).resolve e.kind (m.count e.kind) = some e := by
  obtain ⟨type, hstored, hspell⟩ := spellOut_stored hm.types hadmits h
  have hkind : decide (type.kind = e.kind) = true := decide_eq_true (kind_of_spellOut hspell)
  have hlength := length_space hm e.kind
  rw [resolve_eq_space (hm.add hadmits), space_add hadmits, hstored, Option.toList_some,
    List.filter_cons, if_pos hkind, List.filter_nil, ← hlength, List.getElem?_concat_length]
  exact hspell

/-- What stands at a position among the results of a partial function has results before it. -/
theorem split_filterMap {α β : Type} {f : α → Option β} {xs : List α} {pos : Nat} {y : β}
    (h : (xs.filterMap f)[pos]? = some y) :
    ∃ before x after, xs = before ++ x :: after ∧ f x = some y ∧
      (xs.filterMap f).take pos = before.filterMap f := by
  induction xs generalizing pos with
  | nil => exact absurd h nofun
  | cons x xs ih =>
      rw [List.filterMap_cons] at h ⊢
      cases hx : f x with
      | none =>
          -- `x` has no result, so it only makes the front part longer.
          rw [hx] at h
          obtain ⟨before, x', after, rfl, hx', htake⟩ := ih h
          refine ⟨x :: before, x', after, rfl, hx', ?_⟩
          rw [List.filterMap_cons, hx, ← htake]
      | some z =>
          -- The result of `x` is the first one.
          rw [hx] at h
          cases pos with
          | zero => exact ⟨[], x, xs, rfl, by rw [hx, ← h]; rfl, rfl⟩
          | succ pos =>
              obtain ⟨before, x', after, rfl, hx', htake⟩ := ih h
              refine ⟨x :: before, x', after, rfl, hx', ?_⟩
              rw [List.filterMap_cons, hx, ← htake]
              rfl

/-- Each entity among several items that are added is found where it was counted. -/
theorem resolve_addAll {m : Module} (hm : m.WellFormed) {items : List Item}
    (hadmits : m.AdmitsAll items) {pos : Nat} {e : ExternType FuncType}
    (he : (items.filterMap Item.entity?)[pos]? = some e) :
    (m.addAll items).resolve e.kind (m.countBefore (items.filterMap Item.entity?) pos e.kind)
      = some e := by
  obtain ⟨before, item, after, rfl, hitem, htake⟩ := split_filterMap he
  obtain ⟨hbefore, hadmit, hafter⟩ := admitsAll_append.mp hadmits
  have hthen := hm.addAll hbefore
  -- Counting the entities before the item gives the number of entities once they are added.
  have hcount : m.countBefore ((before ++ item :: after).filterMap Item.entity?) pos e.kind
      = (m.addAll before).count e.kind := by
    rw [countBefore, htake, count_addAll, List.countP_filterMap]
    refine congrArg _ (List.countP_congr ?_)
    intro item _
    cases hentity : item.entity? with
    | none => simp [Item.kind?, hentity]
    | some e' => simp [Item.kind?, hentity]
  rw [hcount, addAll_append, addAll_cons]
  exact (Extends.addAll hafter).resolve (hthen.add hadmit) ((hthen.add hadmit).addAll hafter)
    (resolve_add hthen hadmit hitem)

/-- An export is no entity. -/
theorem filterMap_exportItems (kind : ExternalKind) (index : Nat) (exportName : Option String) :
    (exportItems kind index exportName).filterMap Item.entity? = [] := by
  cases exportName <;> rfl

/-- The one entity that comes with a function is the function. -/
theorem filterMap_functionItems (m : Module) (type : FuncType) (typeIndex : Nat)
    (locals : List LocalRun) (body : Bytes) (options : FunctionOptions) :
    (m.functionItems type typeIndex locals body options).filterMap Item.entity? = [.func type] := by
  obtain ⟨exportName, start⟩ := options
  cases exportName <;> cases start <;> rfl

/-- The entities of a declaration are those among its items. -/
theorem filterMap_items (m : Module) (d : Decl) :
    (m.items d).filterMap Item.entity? = m.entities d := by
  cases d with
  | importBatch scope entries =>
      rw [items, entities, List.filterMap_map]
      exact congrFun List.filterMap_eq_map entries
  | function type locals body options =>
      exact filterMap_functionItems m type (m.types.register type).1 locals body options
  | functionOfType typeIndex locals body options =>
      rw [items, entities]
      cases m.types.get? typeIndex with
      | none => rfl
      | some type => exact filterMap_functionItems m type typeIndex locals body options
  | table type exportName => exact congrArg (_ :: ·) (filterMap_exportItems _ _ exportName)
  | memory limits exportName => exact congrArg (_ :: ·) (filterMap_exportItems _ _ exportName)
  | global type init exportName => exact congrArg (_ :: ·) (filterMap_exportItems _ _ exportName)
  | importEntity _ _ _ | exportEntity _ _ _ | data _ _ | custom _ _ => rfl

/-- Each entity of an accepted declaration is found where it was counted. -/
theorem resolve_declare {m : Module} (hm : m.WellFormed) {d : Decl} {a : Accepted Reply}
    (h : m.declare d = .ok a) {pos : Nat} {e : ExternType FuncType}
    (he : (m.entities d)[pos]? = some e) :
    a.module.resolve e.kind (m.countBefore (m.entities d) pos e.kind) = some e := by
  obtain ⟨hadmits, hmodule⟩ := declare_ok hm.types h
  rw [← filterMap_items] at he ⊢
  rw [hmodule]
  exact resolve_addAll hm hadmits he

/-! ### The answer -/

/-- An import that keeps its rule is numbered like any entity. -/
theorem imported_of_admits {m : Module} {scope name : String} {type : ExternType FuncType}
    (h : m.Admits (.imported scope name type)) : m.imported.of type.kind = m.count type.kind := by
  rw [count, h.2.1, Nat.add_zero]

/-- The imports of a batch are numbered like any entities. -/
theorem value_pushImports {m : Module} {scope : String}
    {entries : List (String × ExternType FuncType)}
    (hadmits : m.AdmitsAll (entries.map fun entry => .imported scope entry.1 entry.2)) (pos : Nat) :
    (m.pushImports scope entries).value[pos]?
      = entries[pos]?.map fun entry => m.countBefore (entries.map Prod.snd) pos entry.2.kind := by
  induction entries generalizing m pos with
  | nil => rfl
  | cons entry entries ih =>
      obtain ⟨hfirst, hrest⟩ := hadmits
      cases pos with
      | zero => exact congrArg some (imported_of_admits hfirst)
      | succ pos =>
          -- The first entry is one more before each later entry of its kind.
          have hvalue := ih hrest pos
          show ((m.add (.imported scope entry.1 entry.2)).pushImports scope entries).value[pos]?
            = entries[pos]?.map _
          rw [hvalue]
          refine Option.map_congr ?_
          intro later _
          rw [countBefore, countBefore, count_add, List.map_cons, List.take_succ_cons,
            List.countP_cons]
          simp only [Item.kind?, Item.entity?, Option.map_some, Option.some.injEq,
            decide_eq_true_eq]
          omega

/-- An entity has the same index whether or not it is exported. -/
theorem value_exportedAs (a : Accepted Nat) (kind : ExternalKind) (exportName : Option String) :
    (a.exportedAs kind exportName).value = a.value := by
  cases exportName <;> rfl

/-- A function has the number of functions before it as its index. -/
theorem value_pushFunction (m : Module) (typeIndex : Nat) (locals : List LocalRun) (body : Bytes)
    (options : FunctionOptions) :
    (m.pushFunction typeIndex locals body options).value = m.count .func := by
  obtain ⟨exportName, start⟩ := options
  cases exportName <;> cases start <;> rfl

/-- An answer with one index, for the only entity. -/
theorem indices_only {m : Module} {index : Nat} {e : ExternType FuncType}
    (h : index = m.count e.kind) (pos : Nat) :
    [index][pos]? = [e][pos]?.map fun e' => m.countBefore [e] pos e'.kind := by
  cases pos with
  | zero => exact congrArg some h
  | succ pos => rfl

/-- The answer to an accepted declaration counts the entities that it declares. -/
theorem indices_declare {m : Module} (hm : m.WellFormed) {d : Decl} {a : Accepted Reply}
    (h : m.declare d = .ok a) (pos : Nat) :
    (d.indices a.value)[pos]?
      = (m.entities d)[pos]?.map fun e => m.countBefore (m.entities d) pos e.kind := by
  obtain ⟨hadmits, -⟩ := declare_ok hm.types h
  have houtcome := eq_outcome_of_declare h
  subst houtcome
  cases d with
  | importEntity scope name type => exact indices_only (imported_of_admits hadmits.1) pos
  | importBatch scope entries =>
      show (m.pushImports scope entries).value[pos]? = (entries.map Prod.snd)[pos]?.map _
      rw [value_pushImports hadmits, List.getElem?_map, Option.map_map]
      rfl
  | function type locals body options =>
      exact indices_only (e := .func type) (value_pushFunction _ _ locals body options) pos
  | functionOfType typeIndex locals body options =>
      obtain ⟨b, hb, -⟩ := map_eq_ok.mp h
      obtain ⟨type, htype, -⟩ := addFunctionOfType_eq_ok.mp hb
      rw [entities, htype]
      exact indices_only (e := .func type) (value_pushFunction _ _ locals body options) pos
  | table type exportName =>
      exact indices_only (e := .table type) (value_exportedAs _ _ exportName) pos
  | memory limits exportName =>
      exact indices_only (e := .memory limits) (value_exportedAs _ _ exportName) pos
  | global type init exportName =>
      exact indices_only (e := .global type) (value_exportedAs _ _ exportName) pos
  | exportEntity _ _ _ | data _ _ | custom _ _ => rfl

/-- There is one index for each entity. -/
theorem length_indices_declare {m : Module} (hm : m.WellFormed) {d : Decl} {a : Accepted Reply}
    (h : m.declare d = .ok a) : (d.indices a.value).length = (m.entities d).length := by
  have hlist : d.indices a.value
      = (m.entities d).mapIdx fun pos e => m.countBefore (m.entities d) pos e.kind := by
    refine List.ext_getElem? ?_
    intro pos
    rw [indices_declare hm h, List.getElem?_mapIdx]
  rw [hlist, List.length_mapIdx]

/-- Indices are permanent. An accepted declaration answers with one index for each entity that it
declares: the number of entities of its kind just before it, at which it is found from then on.
Whatever is declared later, accepted or refused, every index stands for what it stood for, those
that stand for something are those below the number of entities, and signatures keep their type
indices. -/
theorem index_permanent (ds later : List Decl) (d : Decl) (a : Accepted Reply)
    (h : (empty.run ds).declare d = .ok a) :
    (d.indices a.value).length = ((empty.run ds).entities d).length ∧
    (∀ pos index e, (d.indices a.value)[pos]? = some index →
      ((empty.run ds).entities d)[pos]? = some e →
        index = (empty.run ds).countBefore ((empty.run ds).entities d) pos e.kind ∧
          a.module.resolve e.kind index = some e) ∧
    (∀ kind index e, a.module.resolve kind index = some e →
      (a.module.run later).resolve kind index = some e) ∧
    (∀ kind index, ((a.module.run later).resolve kind index).isSome = true ↔
      index < (a.module.run later).count kind) ∧
    ∀ typeIndex type, a.module.types.get? typeIndex = some type →
      (a.module.run later).types.get? typeIndex = some type := by
  have hbefore := wellFormed_empty.run ds
  obtain ⟨hadmits, hmodule⟩ := declare_ok hbefore.types h
  have hafter : a.module.WellFormed := hmodule ▸ hbefore.addAll hadmits
  -- Everything about later modules follows from this.
  have hlater := Extends.run hafter later
  refine ⟨length_indices_declare hbefore h, ?_, ?_, ?_, ?_⟩
  · intro pos index e hindex he
    rw [indices_declare hbefore h, he] at hindex
    rw [← Option.some.inj hindex]
    exact ⟨rfl, resolve_declare hbefore h he⟩
  · intro kind index e hresolve
    exact hlater.resolve hafter (hafter.run later) hresolve
  · intro kind index
    exact resolve_isSome_iff (hafter.run later) kind index
  · intro typeIndex type htype
    exact hlater.get?_types htype

/-- A function and a table are imported after a global. The function keeps its index when one is
defined, made the start and exported, and when another import of a function is refused. -/
theorem index_permanent_of_batch :
    ∃ a, (empty.run [.importEntity "env" "g" (.global ⟨.i32, false⟩)]).declare
        (.importBatch "env" [("f", .func .empty), ("t", .table ⟨.funcref, ⟨1, none⟩⟩)]) = .ok a ∧
      (a.module.run [.function .empty [] [] ⟨some "main", true⟩,
        .importEntity "env" "late" (.func .empty)]).resolve .func 0 = some (.func .empty) := by
  refine ⟨_, rfl, ?_⟩
  obtain ⟨-, hnames, hkeeps, -, -⟩ := index_permanent
    [.importEntity "env" "g" (.global ⟨.i32, false⟩)]
    [.function .empty [] [] ⟨some "main", true⟩, .importEntity "env" "late" (.func .empty)]
    (.importBatch "env" [("f", .func .empty), ("t", .table ⟨.funcref, ⟨1, none⟩⟩)]) _ rfl
  exact hkeeps _ _ _ (hnames 0 0 (.func .empty) rfl rfl).2

end Module

end WasmAssembly
