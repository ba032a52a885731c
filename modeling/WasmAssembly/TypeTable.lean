import WasmAssembly.Vocabulary.ValType

/-!
# `WasmAssembly.TypeTable`: the signatures of a module, each held once

A table numbers signatures in the order in which they are first registered. Entries are looked up
by their binary form, which is also what the type section holds.
-/

set_option autoImplicit false

namespace WasmAssembly

/-- Signatures in index order, each after its binary form. -/
structure TypeTable where
  entries : Array (Bytes × FuncType)
  deriving DecidableEq, Inhabited

namespace TypeTable

/-- The table without signatures. -/
def empty : TypeTable := ⟨#[]⟩

/-- The number of signatures. -/
def size (t : TypeTable) : Nat := t.entries.size

/-- No signature is registered. -/
def isEmpty (t : TypeTable) : Bool := t.entries.isEmpty

/-- The signature at an index. -/
def get? (t : TypeTable) (index : Nat) : Option FuncType :=
  t.entries[index]?.map Prod.snd

/-- The binary form of the signature at an index. -/
def encoded? (t : TypeTable) (index : Nat) : Option Bytes :=
  t.entries[index]?.map Prod.fst

/-- The index of the entry with a binary form. -/
def find? (t : TypeTable) (form : Bytes) : Option Nat :=
  t.entries.findIdx? (·.1 == form)

/-- The index of a registered signature. -/
def lookup (t : TypeTable) (type : FuncType) : Option Nat :=
  t.find? (toBytes type)

/-- The index of a signature, and the table in which it has that index: the same table if it was
registered before. -/
def register (t : TypeTable) (type : FuncType) : Nat × TypeTable :=
  let form := toBytes type
  match t.find? form with
  | some index => (index, t)
  | none => (t.size, ⟨t.entries.push (form, type)⟩)

/-- The signatures in index order. -/
def toList (t : TypeTable) : List FuncType :=
  t.entries.toList.map Prod.snd

end TypeTable

end WasmAssembly
