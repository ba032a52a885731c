import Mathlib.Data.List.Induction
import Mathlib.Data.List.Nodup
import WasmAssembly.Proofs.TypeTable

/-!
# `WasmAssembly.Proofs.TypeTable.Numbering`: signatures in the order of their first registration

A table compares binary forms, not signatures. The binary form tells signatures apart
(`FuncType.toBytes_injective`), so in a lawful table the two comparisons come to the same, and a
registration is described without any bytes: a signature that is there is given its position and
nothing changes (`register_of_mem`), and one that is not is put at the end (`register_of_not_mem`).

`registerAll` registers signatures one after the other. `registerAll_numbers` says what has become
of the empty table then, for every sequence and after each part of it: `Numbers` lists what the
table answers.
-/

set_option autoImplicit false

namespace WasmAssembly.TypeTable

variable {t : TypeTable}

/-! ### One registration -/

/-- A signature that is registered keeps its position, and nothing changes. -/
theorem register_of_mem (ht : t.Lawful) {type : FuncType} (h : type ∈ t.toList) :
    t.register type = (t.toList.idxOf type, t) := by
  obtain ⟨index, hindex, hreg, hform⟩ | ⟨-, hfresh⟩ := register_cases t type
  · -- The entry that was found is the signature, and no other position holds it.
    have hget : t.toList[index]? = some type := by
      rw [← get?_eq_getElem?, get?_eq_some_of_lt hindex]
      have hsame := (ht.forms _ (Array.getElem_mem hindex)).symm.trans hform
      rw [FuncType.toBytes_injective hsame]
    obtain ⟨hlt, rfl⟩ := List.getElem?_eq_some_iff.mp hget
    rw [hreg, ht.distinct.idxOf_getElem index hlt]
  · -- Its entry would have been found.
    obtain ⟨entry, hentry, rfl⟩ := List.mem_map.mp h
    have hmem := Array.mem_toList_iff.mp hentry
    exact absurd (ht.forms entry hmem) (hfresh entry hmem)

/-- A signature that is not registered is put at the end. -/
theorem register_of_not_mem {type : FuncType} (ht : t.Lawful) (h : type ∉ t.toList) :
    t.register type = (t.size, ⟨t.entries.push (toBytes type, type)⟩) := by
  obtain ⟨index, hindex, -, hform⟩ | ⟨hreg, -⟩ := register_cases t type
  · -- An entry with the form of the signature is the signature.
    have hsame := (ht.forms _ (Array.getElem_mem hindex)).symm.trans hform
    have hmem : t.entries[index].2 ∈ t.toList :=
      List.mem_map_of_mem (Array.mem_toList_iff.mpr (Array.getElem_mem hindex))
    rw [FuncType.toBytes_injective hsame] at hmem
    exact absurd hmem h
  · exact hreg

/-- The signatures after a registration: what is new is at the end. -/
theorem toList_register (ht : t.Lawful) (type : FuncType) :
    (t.register type).2.toList
      = if type ∈ t.toList then t.toList else t.toList ++ [type] := by
  by_cases h : type ∈ t.toList
  · rw [if_pos h, register_of_mem ht h]
  · rw [if_neg h, register_of_not_mem ht h, toList_push]

/-- A registration gives the position at which the signature then is. -/
theorem index_register (ht : t.Lawful) (type : FuncType) :
    (t.register type).1 = (t.register type).2.toList.idxOf type := by
  by_cases h : type ∈ t.toList
  · rw [register_of_mem ht h]
  · rw [register_of_not_mem ht h, toList_push, List.idxOf_append_of_notMem h, length_toList]
    simp

/-! ### What a table answers -/

/-- What a table answers that holds given signatures in a given order. -/
structure Numbers (t : TypeTable) (types : List FuncType) : Prop where
  /-- The entries in index order are the signatures. -/
  entries : t.toList = types
  /-- The index of a signature is where it is found. -/
  lookup_iff : ∀ type index, t.lookup type = some index ↔ t.get? index = some type
  /-- An index stands for a signature if it is below their number. -/
  get_defined : ∀ index, (t.get? index).isSome = true ↔ index < t.size
  /-- An index stands for a binary form if it is below the number of signatures. -/
  encoded_defined : ∀ index, (t.encoded? index).isSome = true ↔ index < t.size
  /-- The binary form at an index is that of the signature there. -/
  encoded : ∀ index, t.encoded? index = (t.get? index).map toBytes
  /-- To register a signature again changes nothing. -/
  known : ∀ type ∈ types, t.register type = (types.idxOf type, t)

/-- A signature is at the index under which it is found. -/
theorem get?_of_lookup (ht : t.Lawful) {type : FuncType} {index : Nat}
    (h : t.lookup type = some index) : t.get? index = some type := by
  obtain ⟨hindex, hform, -⟩ := Array.findIdx?_eq_some_iff_getElem.mp h
  have hsame := (ht.forms _ (Array.getElem_mem hindex)).symm.trans (beq_iff_eq.mp hform)
  rw [get?_eq_some_of_lt hindex, FuncType.toBytes_injective hsame]

/-- A signature is found exactly under the index that it is at. -/
theorem lookup_eq_some_iff (ht : t.Lawful) (type : FuncType) (index : Nat) :
    t.lookup type = some index ↔ t.get? index = some type := by
  refine ⟨get?_of_lookup ht, ?_⟩
  intro hget
  cases hlookup : t.lookup type with
  | some found =>
      -- The signature stands at both positions, and no signature stands twice.
      have hfound := get?_of_lookup ht hlookup
      have hlt : found < t.toList.length := by
        rw [length_toList]
        exact lt_size_of_get? hfound
      rw [get?_eq_getElem?] at hget hfound
      rw [(List.getElem?_inj hlt ht.distinct).mp (hfound.trans hget.symm)]
  | none =>
      -- The entry at the position has the form that was looked up.
      have hfresh := Array.findIdx?_eq_none_iff.mp hlookup
      obtain ⟨entry, hentry, rfl⟩ := Option.map_eq_some_iff.mp hget
      have hmem := Array.mem_of_getElem? hentry
      simpa [ht.forms entry hmem] using hfresh entry hmem

/-- A signature is not found exactly if it is not there. -/
theorem lookup_eq_none_iff (ht : t.Lawful) (type : FuncType) :
    t.lookup type = none ↔ type ∉ t.toList := by
  rw [Option.eq_none_iff_forall_ne_some, List.mem_iff_getElem?, not_exists]
  refine forall_congr' ?_
  intro index
  rw [ne_eq, lookup_eq_some_iff ht, get?_eq_getElem?]

/-- The table with one more signature, at its end. -/
def push (t : TypeTable) (type : FuncType) : TypeTable :=
  ⟨t.entries.push (toBytes type, type)⟩

/-- A new signature is at the index that is next. -/
theorem get?_push_size (t : TypeTable) (type : FuncType) :
    (t.push type).get? t.size = some type := by
  rw [get?, push, size, Array.getElem?_push_size, Option.map_some]

/-- A registration is a lookup first. -/
theorem register_of_lookup {type : FuncType} {index : Nat} (h : t.lookup type = some index) :
    t.register type = (index, t) := by
  rw [register, show t.find? (toBytes type) = some index from h]

/-- A signature that is not found is put behind the others. -/
theorem register_of_lookup_eq_none {type : FuncType} (h : t.lookup type = none) :
    t.register type = (t.size, t.push type) := by
  rw [register, show t.find? (toBytes type) = none from h]
  rfl

/-- The indices with a signature are those below the size. -/
theorem isSome_get?_iff (t : TypeTable) (index : Nat) :
    (t.get? index).isSome = true ↔ index < t.size := by
  simp [get?, size]

/-- The bytes at an index are those of the signature at it. -/
theorem encoded?_eq_map (ht : t.Lawful) (index : Nat) :
    t.encoded? index = (t.get? index).map toBytes := by
  rw [encoded?, get?, Option.map_map]
  refine Option.map_congr ?_
  intro entry hentry
  exact ht.forms entry (Array.mem_of_getElem? hentry)

/-- A lawful table numbers its signatures. -/
theorem Lawful.numbers (ht : t.Lawful) : t.Numbers t.toList where
  entries := rfl
  lookup_iff := lookup_eq_some_iff ht
  get_defined := isSome_get?_iff t
  encoded_defined index := by
    rw [encoded?_eq_map ht, Option.isSome_map, isSome_get?_iff]
  encoded := encoded?_eq_map ht
  known _ h := register_of_mem ht h

/-! ### Sequences of registrations -/

/-- Registers signatures one after the other; gives the index of each, and the table. -/
def registerAll (t : TypeTable) : List FuncType → List Nat × TypeTable
  | [] => ([], t)
  | type :: types =>
    let (index, u) := t.register type
    let (indices, u) := u.registerAll types
    (index :: indices, u)

/-- To register signatures and then more is to register them all. -/
theorem registerAll_append (t : TypeTable) (calls more : List FuncType) :
    t.registerAll (calls ++ more)
      = ((t.registerAll calls).1 ++ ((t.registerAll calls).2.registerAll more).1,
          ((t.registerAll calls).2.registerAll more).2) := by
  induction calls generalizing t with
  | nil => rfl
  | cons type calls ih => simp only [List.cons_append, registerAll, ih]

/-- A table stays lawful when signatures are registered. -/
theorem Lawful.registerAll (ht : t.Lawful) (calls : List FuncType) :
    (t.registerAll calls).2.Lawful := by
  induction calls generalizing t with
  | nil => exact ht
  | cons type calls ih => exact ih (ht.register type)

/-- Registrations only append to a table. -/
theorem toList_prefix_registerAll (t : TypeTable) (calls : List FuncType) :
    t.toList <+: (t.registerAll calls).2.toList := by
  induction calls generalizing t with
  | nil => exact List.prefix_rfl
  | cons type calls ih => exact (toList_prefix_register t type).trans (ih _)

/-- One more signature counts if it did not occur before. -/
theorem eraseDups_concat (calls : List FuncType) (type : FuncType) :
    (calls ++ [type]).eraseDups
      = if type ∈ calls.eraseDups then calls.eraseDups else calls.eraseDups ++ [type] := by
  have hone : [type].eraseDups = [type] := rfl
  by_cases h : type ∈ calls
  · simp [List.eraseDups_append, List.removeAll, h]
  · simp [List.eraseDups_append, List.removeAll, h, hone]

/-- The empty table comes to hold the signatures in the order in which they first occur, and each
registration gives the position of its signature among them. -/
theorem registerAll_eq (calls : List FuncType) :
    (empty.registerAll calls).2.toList = calls.eraseDups ∧
      (empty.registerAll calls).1 = calls.map fun type => calls.eraseDups.idxOf type := by
  -- The last registration adds to what those before it have left.
  induction calls using List.reverseRecOn with
  | nil => exact ⟨rfl, rfl⟩
  | append_singleton calls type ih =>
      obtain ⟨htypes, hindices⟩ := ih
      have ht := lawful_empty.registerAll calls
      have hlast : ((empty.registerAll calls).2.register type).2.toList
          = (calls ++ [type]).eraseDups := by
        rw [toList_register ht, htypes, eraseDups_concat]
      rw [registerAll_append]
      refine ⟨hlast, ?_⟩
      show _ ++ [((empty.registerAll calls).2.register type).1] = _
      rw [index_register ht, hlast, hindices, List.map_append, List.map_singleton]
      -- The earlier signatures have kept their positions.
      refine congrArg (· ++ _) (List.map_congr_left ?_)
      intro earlier hearlier
      have hmem : earlier ∈ calls.eraseDups := List.mem_eraseDups.mpr hearlier
      rw [eraseDups_concat]
      split
      · rfl
      · rw [List.idxOf_append_of_mem hmem]

/-- Signatures are numbered in the order of their first registration. After any sequence of
registrations from the empty table, and after any further one, the table holds the distinct
signatures of the sequence in the order in which they first occurred, and answers accordingly. Each
registration has given the position of its signature among them, so two have given the same index
exactly if their signatures are the same. What is registered later moves nothing. -/
theorem registerAll_numbers (calls later : List FuncType) :
    (empty.registerAll calls).2.Numbers calls.eraseDups ∧
    (empty.registerAll calls).1 = calls.map (fun type => calls.eraseDups.idxOf type) ∧
    (∀ i j : Nat, (empty.registerAll calls).1[i]? = (empty.registerAll calls).1[j]? ↔
      calls[i]? = calls[j]?) ∧
    (empty.registerAll (calls ++ later)).2.Numbers (calls ++ later).eraseDups ∧
    (empty.registerAll calls).1 <+: (empty.registerAll (calls ++ later)).1 ∧
    (empty.registerAll calls).2.toList <+: (empty.registerAll (calls ++ later)).2.toList := by
  have hnumbers (calls : List FuncType) :
      (empty.registerAll calls).2.Numbers calls.eraseDups := by
    rw [← (registerAll_eq calls).1]
    exact (lawful_empty.registerAll calls).numbers
  refine ⟨hnumbers calls, (registerAll_eq calls).2, ?_, hnumbers _, ?_, ?_⟩
  · intro i j
    rw [(registerAll_eq calls).2, List.getElem?_map, List.getElem?_map]
    -- A position that belongs to a signature belongs to no other.
    have hinj : ∀ a ∈ calls, ∀ b, calls.eraseDups.idxOf a = calls.eraseDups.idxOf b ↔ a = b :=
      fun a ha _ => List.idxOf_inj (List.mem_eraseDups.mpr ha)
    cases hi : calls[i]? with
    | none => cases hj : calls[j]? <;> simp
    | some a =>
        cases hj : calls[j]? with
        | none => simp
        | some b => simp [hinj a (List.mem_of_getElem? hi) b]
  · rw [registerAll_append]
    exact List.prefix_append _ _
  · rw [registerAll_append]
    exact toList_prefix_registerAll _ later

/-- Two signatures that differ in where their one type stands, with one of them registered twice. -/
example : (empty.registerAll [⟨[.i32], []⟩, ⟨[], [.i32]⟩, ⟨[.i32], []⟩]).1 = [0, 1, 0] := by
  decide +kernel

end WasmAssembly.TypeTable
