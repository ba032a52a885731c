import WasmAssembly.Manifest
import WasmAssembly.Proofs.Module.Calls
import WasmAssembly.Proofs.Module.ImplicitExport

/-!
# `WasmAssembly.Proofs.Module.ExportLookup`: which export is found under a name

`Manifest.findExport?` takes the first export with a name. No name is exported twice, so it is the
only one (`findExport?_eq_some_iff`), and the exports of a module are those that the accepted calls
of the run have made (`Session.exports_run`). What an export refers to is there when it is made and
keeps its index (`resolve_exported`).

`findExport_run` is what follows for runs: which calls can be found, and what becomes of names that
were only offered in vain.
-/

set_option autoImplicit false

namespace WasmAssembly

/-- An export as the manifest lists it. -/
def Export.entry (e : Export) : ExportEntry :=
  ⟨e.name, e.kind, UInt32.ofNat e.index⟩

/-- The entity that a declaration exports in a module: the one at the index that is given with it,
or the one that it defines. -/
def Module.exportedEntity? (m : Module) : Decl → Option (ExternType FuncType)
  | .exportEntity _ kind index => m.resolve kind index
  | d => (m.entities d).head?

namespace Module

variable {m n : Module} {name : String}

/-! ### Looking up a name -/

/-- A name is looked up among the exports. -/
theorem findExport?_eq_map (m : Module) (name : String) :
    m.manifest.findExport? name = (m.exports.toList.find? (·.name == name)).map Export.entry :=
  List.find?_map

/-- In a well-formed module exactly its exports can be found. -/
theorem findExport?_eq_some_iff (h : m.WellFormed) {entry : ExportEntry} :
    m.manifest.findExport? name = some entry ↔
      ∃ e ∈ m.exports.toList, e.name = name ∧ e.entry = entry := by
  rw [findExport?_eq_map, Option.map_eq_some_iff]
  constructor
  · rintro ⟨e, hfind, rfl⟩
    have hname : e.name = name := by simpa using List.find?_some hfind
    exact ⟨e, List.mem_of_find?_eq_some hfind, hname, rfl⟩
  · rintro ⟨e, he, rfl, rfl⟩
    have hsome : (m.exports.toList.find? (·.name == e.name)).isSome = true :=
      List.find?_isSome.mpr ⟨e, he, BEq.rfl⟩
    obtain ⟨first, hfirst⟩ := Option.isSome_iff_exists.mp hsome
    have hname : first.name = e.name := by simpa using List.find?_some hfirst
    -- The first export with the name is the only one.
    have hsame : first = e :=
      List.inj_on_of_nodup_map h.exportNames (List.mem_of_find?_eq_some hfirst) he hname
    exact ⟨e, hsame ▸ hfirst, rfl⟩

/-- A name that is found is exported once, and any other is not. -/
theorem countP_name (h : m.WellFormed) (name : String) :
    m.exports.toList.countP (·.name = name)
      = if (m.manifest.findExport? name).isSome then 1 else 0 := by
  have hfound : (m.manifest.findExport? name).isSome = true ↔
      name ∈ m.exports.toList.map (·.name) := by
    rw [findExport?_eq_map, Option.isSome_map, List.find?_isSome, List.mem_map]
    simp
  have hcount : m.exports.toList.countP (·.name = name)
      = (m.exports.toList.map (·.name)).count name := by
    rw [List.count, List.countP_map]
    rfl
  rw [hcount, h.exportNames.count]
  exact if_congr hfound.symm rfl rfl

/-- A name that is not found is free. -/
theorem nameFree_of_findExport? (h : m.WellFormed)
    (hnone : m.manifest.findExport? name = none) : m.NameFree name := by
  intro e he hname
  have hfound := (findExport?_eq_some_iff h).mpr ⟨e, Array.mem_toList_iff.mpr he, hname, rfl⟩
  rw [hnone] at hfound
  exact absurd hfound nofun

/-- A name that is free is found behind the next export under it. -/
theorem findExport?_of_push {e : Export} (hfree : m.NameFree e.name)
    (h : n.exports = m.exports.push e) : n.manifest.findExport? e.name = some e.entry := by
  have hnone : m.exports.toList.find? (·.name == e.name) = none := by
    rw [List.find?_eq_none]
    intro taken htaken
    simpa using hfree taken (Array.mem_toList_iff.mp htaken)
  rw [findExport?_eq_map, h, Array.toList_push, List.find?_append, hnone, Option.none_or]
  simp

/-! ### What is exported -/

/-- If a declaration has one entity and answers with one index, what is exported at this index is
that entity. -/
theorem resolve_only (hm : m.WellFormed) {d : Decl} {a : Accepted Reply} (h : m.declare d = .ok a)
    {index : Nat} {entity : ExternType FuncType} (hindex : d.indices a.value = [index])
    (hentity : m.entities d = [entity]) {exportName : Option String} {e : Export}
    (he : exportName.map (.named entity.kind index) = some e) :
    a.module.resolve e.kind e.index = some entity := by
  have hfirst : (m.entities d)[0]? = some entity := by
    rw [hentity]
    rfl
  have hanswer := indices_declare hm h 0
  rw [hindex, hfirst, Option.map_some] at hanswer
  obtain ⟨name, -, rfl⟩ := Option.map_eq_some_iff.mp he
  show a.module.resolve entity.kind index = some entity
  rw [Option.some.inj hanswer]
  exact resolve_declare hm h hfirst

/-- An export refers to what is found at its index from then on: the entity that was found there
before, or the one that is defined with it. -/
theorem resolve_exported (hm : m.WellFormed) {d : Decl} {a : Accepted Reply}
    (h : m.declare d = .ok a) {e : Export} (he : d.exported? a.value = some e) :
    ∃ entity, m.exportedEntity? d = some entity ∧
      a.module.resolve e.kind e.index = some entity := by
  -- What is exported shows once the answer has its form: an index, or nothing.
  have hreply := congrArg Accepted.value (eq_outcome_of_declare h)
  rw [hreply] at he
  cases d with
  | exportEntity name kind index =>
      rw [← Option.some.inj he]
      obtain ⟨b, hb, -⟩ := map_eq_ok.mp h
      have hindex := (checkExport_eq_ok.mp (addExport_eq_ok.mp hb).1).2
      -- There is an entity at the index, and it stays there.
      obtain ⟨entity, hentity⟩ :=
        Option.isSome_iff_exists.mp ((resolve_isSome_iff hm kind index).mpr hindex)
      obtain ⟨hadmits, hmodule⟩ := declare_ok hm.types h
      refine ⟨entity, hentity, ?_⟩
      rw [hmodule]
      exact (Extends.addAll hadmits).resolve hm (hm.addAll hadmits) hentity
  | function type locals body options =>
      exact ⟨.func type, rfl, resolve_only hm h (congrArg _ hreply) rfl he⟩
  | functionOfType typeIndex locals body options =>
      obtain ⟨b, hb, -⟩ := map_eq_ok.mp h
      obtain ⟨type, htype, -⟩ := addFunctionOfType_eq_ok.mp hb
      have hentity : m.entities (.functionOfType typeIndex locals body options) = [.func type] := by
        rw [entities, htype]
        rfl
      exact ⟨.func type, congrArg List.head? hentity,
        resolve_only hm h (congrArg _ hreply) hentity he⟩
  | table type exportName =>
      exact ⟨.table type, rfl, resolve_only hm h (congrArg _ hreply) rfl he⟩
  | memory limits exportName =>
      exact ⟨.memory limits, rfl, resolve_only hm h (congrArg _ hreply) rfl he⟩
  | global type init exportName =>
      exact ⟨.global type, rfl, resolve_only hm h (congrArg _ hreply) rfl he⟩
  | importEntity _ _ _ | importBatch _ _ | data _ _ | custom _ _ =>
      exact absurd he.symm (Option.some_ne_none e)

end Module

/-! ### Names that are free -/

namespace Session

variable {s t : Session} {name : String}

/-- An entity can be exported under a name that is free, and is found under it then. -/
theorem exportEntity_of_free (hfree : s.module.NameFree name) {kind : ExternalKind} {index : Nat}
    (hindex : index < s.module.count kind) :
    ∃ t, (Command.exportEntity name kind index).run s = .ok () t ∧
      t.module.manifest.findExport? name = some ⟨name, kind, UInt32.ofNat index⟩ := by
  have hcheck : s.module.checkExport name kind index = .ok () :=
    Module.checkExport_eq_ok.mpr ⟨hfree, hindex⟩
  have hexported : s.module.addExport name kind index = .ok (s.module.pushExport name kind index) :=
    Module.addExport_eq_ok.mpr ⟨hcheck, rfl⟩
  refine ⟨_, (Command.run_exportEntity s name kind index).trans (congrArg s.settle hexported), ?_⟩
  exact Module.findExport?_of_push (e := ⟨name, kind, index⟩) hfree rfl

/-- What can be defined can be exported at once under a name that is free, and is found under it
then. -/
theorem command_of_free (hfree : s.module.NameFree name) {d : Definition} {index : Nat}
    (h : (d.command none).run s = .ok index t) :
    ∃ t', (d.command (some name)).run s = .ok index t' ∧
      t'.module.manifest.findExport? name = some ⟨name, d.kind, UInt32.ofNat index⟩ := by
  obtain ⟨check, a, happended, hnone, hsome⟩ := d.run_command s
  have hdefined := h
  rw [hnone, settle_eq_ok] at hdefined
  obtain ⟨_, hchecked, rfl, rfl⟩ := hdefined
  rw [check_bind_eq_ok, pure_eq_ok] at hchecked
  obtain ⟨-, rfl⟩ := hchecked
  -- The definition takes no name, so this one is still free behind it.
  have hthen : a.module.NameFree name := by
    intro e he
    rw [happended.exports] at he
    exact hfree e he
  obtain ⟨t', ht', hfound⟩ :=
    exportEntity_of_free (s := ⟨a.module, s.log ++ a.records⟩) hthen happended.index
  rw [Command.run_exportEntity] at ht'
  refine ⟨t', ?_, hfound⟩
  rw [hsome, happended.andThen name check, settle_andThen_eq_ok, ← hnone]
  exact ⟨a.value, (), _, h, ht', rfl⟩

/-! ### Runs -/

/-- What is found after a run is what its calls have exported. -/
theorem findExport?_run (ds : List Decl) {entry : ExportEntry} :
    (start.run ds).module.manifest.findExport? name = some entry ↔
      ∃ c ∈ start.calls ds, ∃ e, c.exported? = some e ∧ e.name = name ∧ e.entry = entry := by
  rw [Module.findExport?_eq_some_iff (wellFormed_module ds), exports_run]
  constructor
  · rintro ⟨e, he, hname, hentry⟩
    obtain ⟨c, hc, hexported⟩ := List.mem_filterMap.mp he
    exact ⟨c, hc, e, hexported, hname, hentry⟩
  · rintro ⟨c, hc, e, hexported, hname, hentry⟩
    exact ⟨e, List.mem_filterMap.mpr ⟨c, hc, hexported⟩, hname, hentry⟩

/-- A name that is found has been exported by one call of the run, and any other by none. -/
theorem countP_exported (ds : List Decl) (name : String) :
    (start.calls ds).countP (fun c => c.exported?.map (·.name) = some name)
      = if ((start.run ds).module.manifest.findExport? name).isSome then 1 else 0 := by
  rw [← Module.countP_name (wellFormed_module ds), exports_run, List.countP_filterMap]
  refine List.countP_congr ?_
  intro c _
  cases c.exported? <;> simp

/-- Whatever a call of a run has exported is found at its index at the end of the run. -/
theorem resolve_run {ds : List Decl} {c : Call} (hc : c ∈ start.calls ds) {e : Export}
    (he : c.exported? = some e) :
    ∃ entity, c.before.exportedEntity? c.decl = some entity ∧
      (start.run ds).module.resolve e.kind e.index = some entity := by
  obtain ⟨before, d, behind, rfl, rfl⟩ := mem_calls.mp hc
  obtain ⟨a, h, hexported⟩ := exported_call_eq_some.mp he
  obtain ⟨entity, hentity, hresolve⟩ :=
    Module.resolve_exported (wellFormed_module before) h hexported
  refine ⟨entity, hentity, ?_⟩
  have hafter : a.module = (start.run (before ++ [d])).module := by
    rw [run_append, run_cons, after_of_declare h, run_nil]
  have hthen : a.module.WellFormed := hafter ▸ wellFormed_module (before ++ [d])
  -- What comes behind the call does not move the entity.
  rw [run_append, run_cons, after_of_declare h, module_run]
  exact (Module.Extends.run hthen behind).resolve hthen (hthen.run behind) hresolve

/-- A call that makes an export was accepted, and has offered the name of the export. -/
theorem exportName?_of_exported {ds : List Decl} {c : Call} (hc : c ∈ start.calls ds) {e : Export}
    (he : c.exported? = some e) :
    c.decl.exportName? = some e.name ∧ ∃ reply, c.answer = .ok reply := by
  obtain ⟨before, d, behind, rfl, rfl⟩ := mem_calls.mp hc
  obtain ⟨a, h, hexported⟩ := exported_call_eq_some.mp he
  have hname := Module.name_exported_declare h
  rw [hexported, Option.map_some] at hname
  exact ⟨hname.symm, a.value, answer_call_eq_ok.mpr ⟨a, h, rfl⟩⟩

/-- Exports are found by their names, over whole runs. After every run of declarations, a name is
found exactly if an accepted call of the run exported it, and there is exactly one such call then.
What is found is its export: the kind and the index refer to the entity that this call exported, the
one that it defined or the one that it was given the index of. It stays the same whatever is
declared later. A name that was only offered in vain is not found: it can still be given to each
entity that there is, and to each that can be defined. -/
theorem findExport_run (ds : List Decl) (name : String) :
    (∀ entry, (start.run ds).module.manifest.findExport? name = some entry ↔
      ∃ c ∈ start.calls ds, ∃ e, c.exported? = some e ∧ e.name = name ∧ e.entry = entry) ∧
    (start.calls ds).countP (fun c => c.exported?.map (·.name) = some name)
      = (if ((start.run ds).module.manifest.findExport? name).isSome then 1 else 0) ∧
    (∀ c ∈ start.calls ds, ∀ e, c.exported? = some e →
      ∃ entity, c.before.exportedEntity? c.decl = some entity ∧
        (start.run ds).module.resolve e.kind e.index = some entity) ∧
    (∀ later entry, (start.run ds).module.manifest.findExport? name = some entry →
      (start.run (ds ++ later)).module.manifest.findExport? name = some entry) ∧
    ((∀ c ∈ start.calls ds, c.decl.exportName? = some name → ∃ e, c.answer = .error e) →
      (start.run ds).module.manifest.findExport? name = none ∧
      (∀ kind index, index < (start.run ds).module.count kind →
        ∃ t, (Command.exportEntity name kind index).run (start.run ds) = .ok () t ∧
          t.module.manifest.findExport? name = some ⟨name, kind, UInt32.ofNat index⟩) ∧
      ∀ (d : Definition) index t, (d.command none).run (start.run ds) = .ok index t →
        ∃ t', (d.command (some name)).run (start.run ds) = .ok index t' ∧
          t'.module.manifest.findExport? name = some ⟨name, d.kind, UInt32.ofNat index⟩) := by
  refine ⟨fun _ => findExport?_run ds, countP_exported ds name, ?_, ?_, ?_⟩
  · intro c hc e he
    exact resolve_run hc he
  · intro later entry hfound
    rw [findExport?_run] at hfound ⊢
    obtain ⟨c, hc, hexported⟩ := hfound
    rw [calls_append]
    exact ⟨c, List.mem_append_left _ hc, hexported⟩
  · intro hrefused
    have hnone : (start.run ds).module.manifest.findExport? name = none := by
      rw [Option.eq_none_iff_forall_ne_some]
      intro entry hfound
      obtain ⟨c, hc, e, hexported, rfl, -⟩ := (findExport?_run ds).mp hfound
      obtain ⟨hoffered, reply, hok⟩ := exportName?_of_exported hc hexported
      obtain ⟨error, herror⟩ := hrefused c hc hoffered
      rw [hok] at herror
      exact absurd herror nofun
    have hfree := Module.nameFree_of_findExport? (wellFormed_module ds) hnone
    refine ⟨hnone, ?_, ?_⟩
    · intro kind index hindex
      exact exportEntity_of_free hfree hindex
    · intro d index t hdefined
      exact command_of_free hfree hdefined

end Session

end WasmAssembly
