import WasmAssembly.Proofs.Module.Trace
import WasmAssembly.Proofs.Reading.Contents

/-!
# `WasmAssembly.Proofs.Reading.Framing`: the sections that are there

A module can be walked without a look into its sections: behind the header each has its number and
the length of what is to be passed over. `frames_serialize` says what such a walk meets. The
sections of the format come first, in its order, and those that would hold nothing are left out;
`Module.Holds` is that rule, section by section. Then come the custom sections, one for each that
was declared.
-/

set_option autoImplicit false

namespace WasmAssembly

/-- The custom section that a declaration adds, if it adds one. -/
def Decl.custom? : Decl → Option CustomSection
  | .custom name bytes => some ⟨name, bytes⟩
  | _ => none

namespace Module

open ByteReader

/-- There is something to be put into a section. -/
def Holds (m : Module) : SectionId → Prop
  | .types => 0 < m.types.size
  | .imports => 0 < m.imports.size
  | .functions | .code => 0 < m.functions.size
  | .tables => 0 < m.tables.size
  | .memories => 0 < m.memories.size
  | .globals => 0 < m.globals.size
  | .exports => 0 < m.exports.size
  | .start => m.start.isSome = true
  | .data | .dataCount => 0 < m.data.size
  | .custom => 0 < m.customs.size
  | .elements => False

instance (m : Module) : DecidablePred m.Holds := by
  intro id
  cases id <;> unfold Holds <;> infer_instance

/-! ### Sections that are left out -/

/-- A list has a payload if it has an entry. -/
theorem isSome_vectorPayload (count : Nat) (entries : Buffer) :
    (vectorPayload count entries).isSome = true ↔ 0 < count := by
  rw [vectorPayload]
  by_cases hcount : count = 0
  · rw [if_pos hcount, hcount]
    exact ⟨fun h => absurd h Bool.false_ne_true, fun h => absurd h (Nat.lt_irrefl 0)⟩
  · rw [if_neg hcount]
    exact ⟨fun _ => Nat.pos_of_ne_zero hcount, fun _ => rfl⟩

/-- A section of the format has a payload exactly if there is something to be put into it. -/
theorem isSome_payload (m : Module) {id : SectionId} (hid : id ∈ SectionId.order) :
    (m.payload id).isSome = true ↔ m.Holds id := by
  cases id with
  | types | imports | functions | tables | memories | globals | exports | code | data =>
      exact isSome_vectorPayload _ _
  | start =>
      show (m.start.map _).isSome = true ↔ m.start.isSome = true
      rw [Option.isSome_map]
  | dataCount =>
      show (if m.data.size = 0 then none else some _).isSome = true ↔ 0 < m.data.size
      by_cases hnone : m.data.size = 0
      · rw [if_pos hnone, hnone]
        exact ⟨nofun, nofun⟩
      · rw [if_neg hnone]
        exact ⟨fun _ => Nat.pos_of_ne_zero hnone, fun _ => rfl⟩
  | elements => exact ⟨nofun, fun h => h.elim⟩
  | custom => exact absurd hid (by decide)

/-! ### Custom sections -/

/-- An export is no custom section. -/
theorem filterMap_custom?_exportItems (kind : ExternalKind) (index : Nat)
    (exportName : Option String) :
    (exportItems kind index exportName).filterMap Item.custom? = [] := by
  cases exportName <;> rfl

/-- No custom section comes with a function. -/
theorem filterMap_custom?_functionItems (m : Module) (type : FuncType) (typeIndex : Nat)
    (locals : List LocalRun) (body : Bytes) (options : FunctionOptions) :
    (m.functionItems type typeIndex locals body options).filterMap Item.custom? = [] := by
  obtain ⟨exportName, start⟩ := options
  cases exportName <;> cases start <;> rfl

/-- Only a declaration of a custom section adds one. -/
theorem filterMap_custom?_items (m : Module) (d : Decl) :
    (m.items d).filterMap Item.custom? = d.custom?.toList := by
  cases d with
  | importBatch scope entries =>
      rw [items, List.filterMap_map]
      exact List.filterMap_eq_nil_iff.mpr fun _ _ => rfl
  | function type locals body options =>
      exact filterMap_custom?_functionItems m type (m.types.register type).1 locals body options
  | functionOfType typeIndex locals body options =>
      rw [items]
      cases m.types.get? typeIndex with
      | none => rfl
      | some type => exact filterMap_custom?_functionItems m type typeIndex locals body options
  | table _ exportName | memory _ exportName | global _ _ exportName =>
      exact filterMap_custom?_exportItems _ _ exportName
  | importEntity _ _ _ | exportEntity _ _ _ | data _ _ | custom _ _ => rfl

/-- A declaration of a custom section is never refused. -/
theorem customs_after {m : Module} (hm : m.types.Lawful) (d : Decl) :
    (m.after d).customs.toList = m.customs.toList ++ d.custom?.toList := by
  obtain ⟨-, hafter⟩ := after_eq_addAll hm d
  rw [hafter, toList_addAll customs_add]
  refine congrArg _ ?_
  rw [additions]
  cases h : m.declare d with
  | ok a => exact filterMap_custom?_items m d
  | error e =>
      cases d with
      | custom name bytes => cases h
      | _ => rfl

/-- A run leaves the custom sections that it declares, in order. -/
theorem customs_run {m : Module} (hm : m.WellFormed) (ds : List Decl) :
    (m.run ds).customs.toList = m.customs.toList ++ ds.filterMap Decl.custom? := by
  induction ds generalizing m with
  | nil => exact (List.append_nil _).symm
  | cons d ds ih =>
      have hafter : (m.after d).WellFormed := hm.run [d]
      rw [run_cons, ih hafter, customs_after hm.types, List.append_assoc]
      cases hcustom : d.custom? with
      | none => rw [List.filterMap_cons_none hcustom, Option.toList_none, List.nil_append]
      | some c => rw [List.filterMap_cons_some hcustom, Option.toList_some, List.singleton_append]

/-! ### The walk -/

/-- The sections of the format that are there, with their payloads. -/
def standardFrames (m : Module) : List (SectionId × Bytes) :=
  SectionId.order.filterMap fun id => (m.payload id).map (id, ·)

/-- The sections of the format that are there are those that hold something, in its order. -/
theorem map_fst_standardFrames (m : Module) :
    m.standardFrames.map Prod.fst = SectionId.order.filter m.Holds := by
  rw [standardFrames, map_fst_filterMap]
  refine List.filter_congr ?_
  intro id hid
  exact Bool.eq_iff_iff.mpr ((isSome_payload m hid).trans (decide_eq_true_iff).symm)

/-- Sections and where they stand. After every run of declarations that leaves sections shorter than
`2 ^ 32` bytes, the module is its header and then sections up to its last byte, each passed over by
its number and its length. The sections of the format are those that hold something, in its order;
none comes twice, and the number of data segments stands before the code, which stands before the
data. Behind them is one custom section for each declaration of one, in order. -/
theorem frames_serialize (ds : List Decl) (hshort : (empty.run ds).PayloadsShort) :
    (empty.run ds).serialize.take 8 = magic ++ version ∧
    ∃ standard customs,
      many frame ((empty.run ds).serialize.drop 8) = some (standard ++ customs) ∧
      standard.map Prod.fst = SectionId.order.filter (empty.run ds).Holds ∧
      (standard.map Prod.fst).Nodup ∧
      ((standard.map Prod.fst).filter (· ∈ [.dataCount, .code, .data])).Sublist
        [.dataCount, .code, .data] ∧
      customs = (ds.filterMap Decl.custom?).map fun c => (.custom, toBytes c) := by
  have hcustoms : (empty.run ds).customs.toList = ds.filterMap Decl.custom? :=
    customs_run wellFormed_empty ds
  have hheader : (magic ++ version).length = 8 := rfl
  have hwalk : many frame ((empty.run ds).serialize.drop 8)
      = some ((empty.run ds).standardFrames ++
          (empty.run ds).customs.toList.map fun c => (.custom, toBytes c)) := by
    rw [serialize_eq_frames, List.drop_left' hheader]
    exact many_frames hshort
  rw [hcustoms] at hwalk
  refine ⟨?_, _, _, hwalk, map_fst_standardFrames _, ?_, ?_, rfl⟩
  · rw [serialize_eq_frames, List.take_left' hheader]
  · rw [map_fst_standardFrames]
    exact List.Nodup.filter _ (by decide)
  · -- What is kept of the order is a part of it, and the three stand in the order like this.
    rw [map_fst_standardFrames]
    exact List.filter_sublist.filter _

/-- A module with a start function, a data segment and two custom sections, one of them declared
before anything else. There are no sections for imports, tables, globals, exports and elements. -/
theorem frames_serialize_of_run :
    ∃ standard customs,
      many frame ((empty.run [.custom "a" [1], .memory ⟨1, none⟩ none,
        .function .empty [] [] ⟨none, true⟩, .data 0 [2, 3],
        .custom "b" []]).serialize.drop 8) = some (standard ++ customs) ∧
      standard.map Prod.fst
        = [.types, .functions, .memories, .start, .dataCount, .code, .data] ∧
      customs = [(.custom, [1, 97, 1]), (.custom, [1, 98])] := by
  obtain ⟨-, standard, customs, hwalk, hstandard, -, -, hcustoms⟩ := frames_serialize
    [.custom "a" [1], .memory ⟨1, none⟩ none, .function .empty [] [] ⟨none, true⟩, .data 0 [2, 3],
      .custom "b" []] (by decide +kernel)
  refine ⟨standard, customs, hwalk, ?_, ?_⟩
  · rw [hstandard]
    decide +kernel
  · rw [hcustoms]
    decide +kernel

end Module

end WasmAssembly
