import Mathlib.Data.List.Nodup
import WasmAssembly.Proofs.Vocabulary.Form
import WasmAssembly.TypeTable

/-!
# `WasmAssembly.Proofs.TypeTable`: registering signatures

`register_cases` says what a registration does: it finds an entry with the binary form of the
signature and changes nothing, or it appends one. From it come the two facts that everything else
rests on. The index that is given belongs to the signature (`get?_register`), and no signature that
was there moves (`toList_prefix_register`).

The first needs the table to be lawful: every signature stands under its own binary form, so an
entry with the form of a signature holds that signature.
-/

set_option autoImplicit false

namespace WasmAssembly.TypeTable

/-- Every signature stands under its binary form, and none stands twice. -/
structure Lawful (t : TypeTable) : Prop where
  forms : ∀ entry ∈ t.entries, entry.1 = toBytes entry.2
  distinct : t.toList.Nodup

/-- The empty table is lawful. -/
theorem lawful_empty : empty.Lawful where
  forms entry h := absurd h (Array.not_mem_empty entry)
  distinct := List.nodup_nil

/-- A registration finds an entry or appends one. -/
theorem register_cases (t : TypeTable) (type : FuncType) :
    (∃ index, ∃ h : index < t.entries.size,
        t.register type = (index, t) ∧ t.entries[index].1 = toBytes type) ∨
      t.register type = (t.size, ⟨t.entries.push (toBytes type, type)⟩) ∧
        ∀ entry ∈ t.entries, entry.1 ≠ toBytes type := by
  rw [register]
  cases hfind : t.find? (toBytes type) with
  | some index =>
      obtain ⟨hindex, hform, -⟩ := Array.findIdx?_eq_some_iff_getElem.mp hfind
      exact .inl ⟨index, hindex, rfl, beq_iff_eq.mp hform⟩
  | none =>
      have hfresh := Array.findIdx?_eq_none_iff.mp hfind
      exact .inr ⟨rfl, fun entry h => beq_eq_false_iff_ne.mp (hfresh entry h)⟩

variable {t : TypeTable}

/-- There is a signature at each index below the size. -/
theorem get?_eq_some_of_lt {index : Nat} (h : index < t.size) :
    t.get? index = some t.entries[index].2 := by
  rw [get?, Array.getElem?_eq_getElem h, Option.map_some]

/-- An index with a signature is below the size. -/
theorem lt_size_of_get? {index : Nat} {type : FuncType} (h : t.get? index = some type) :
    index < t.size := by
  rw [get?, Option.map_eq_some_iff] at h
  obtain ⟨entry, hentry, -⟩ := h
  exact (Array.getElem?_eq_some_iff.mp hentry).1

/-- A table is looked into like the list of its signatures. -/
theorem get?_eq_getElem? (index : Nat) : t.get? index = t.toList[index]? := by
  rw [get?, toList, List.getElem?_map, Array.getElem?_toList]

/-- A table has as many signatures as entries. -/
theorem length_toList : t.toList.length = t.size := by
  rw [toList, List.length_map, Array.length_toList, size]

/-- The signature that a registration gives an index for is found at that index. -/
theorem get?_register (ht : t.Lawful) (type : FuncType) :
    (t.register type).2.get? (t.register type).1 = some type := by
  obtain ⟨index, hindex, hreg, hform⟩ | ⟨hreg, -⟩ := register_cases t type
  · -- The entry that was found holds a signature with the form of `type`.
    have hsame : t.entries[index].2 = type :=
      FuncType.toBytes_injective ((ht.forms _ (Array.getElem_mem hindex)).symm.trans hform)
    rw [hreg, get?_eq_some_of_lt hindex, hsame]
  · rw [hreg, get?, size, Array.getElem?_push_size, Option.map_some]

/-- A new signature comes behind the others. -/
theorem toList_push (entry : Bytes × FuncType) :
    toList ⟨t.entries.push entry⟩ = t.toList ++ [entry.2] := by
  rw [toList, Array.toList_push, List.map_append]
  rfl

/-- A registration moves no signature. -/
theorem toList_prefix_register (t : TypeTable) (type : FuncType) :
    t.toList <+: (t.register type).2.toList := by
  obtain ⟨_, _, hreg, -⟩ | ⟨hreg, -⟩ := register_cases t type
  · simp only [hreg, List.prefix_rfl]
  · rw [hreg, toList_push]
    exact List.prefix_append _ _

/-- In a table that has more signatures at its end, those at the front are where they were. -/
theorem get?_of_prefix {u : TypeTable} {index : Nat} {type : FuncType}
    (h : t.toList <+: u.toList) (hget : t.get? index = some type) :
    u.get? index = some type := by
  -- As a list the table is only longer.
  rw [get?_eq_getElem?] at hget ⊢
  obtain ⟨more, hmore⟩ := h
  rw [← hmore, List.getElem?_append_left (List.getElem?_eq_some_iff.mp hget).1, hget]

/-- The index that a registration gives is one of the table. -/
theorem register_lt_size (ht : t.Lawful) (type : FuncType) :
    (t.register type).1 < (t.register type).2.size :=
  lt_size_of_get? (get?_register ht type)

/-- A table stays lawful when a signature is registered. -/
theorem Lawful.register (ht : t.Lawful) (type : FuncType) : (t.register type).2.Lawful := by
  obtain ⟨_, _, hreg, -⟩ | ⟨hreg, hfresh⟩ := register_cases t type
  · rwa [hreg]
  · rw [hreg]
    refine ⟨?_, ?_⟩
    · intro entry hentry
      obtain hold | rfl := Array.mem_push.mp hentry
      · exact ht.forms entry hold
      · rfl
    · -- A signature that stood in the table would have been found by its form.
      have hnew : type ∉ t.toList := by
        intro hmem
        obtain ⟨entry, hentry, rfl⟩ := List.mem_map.mp hmem
        have hold := Array.mem_toList_iff.mp hentry
        exact hfresh entry hold (ht.forms entry hold)
      rw [toList_push, ← List.concat_eq_append]
      exact ht.distinct.concat hnew

end WasmAssembly.TypeTable
