import WasmAssembly.Bytes.Buffer

/-!
# `WasmAssembly.Bytes.Encode`: types with a binary form

`Encode` is the class of types whose values can be written to a buffer. `toBytes` is what a value
writes to an empty buffer, `entries` writes a list of values one after the other, and `vector`
puts their number in front.
-/

set_option autoImplicit false

namespace WasmAssembly

/-- A type whose values have a binary form. -/
class Encode (α : Type) where
  /-- Writes the binary form of a value. -/
  encode : Buffer → α → Buffer

export Encode (encode)

/-- The binary form of a value. -/
def toBytes {α : Type} [Encode α] (a : α) : Bytes :=
  (encode Buffer.empty a).toList

namespace Buffer

/-- Writes the values of a list in order. -/
def entries {α : Type} [Encode α] (b : Buffer) (xs : List α) : Buffer :=
  xs.foldl encode b

/-- Writes the number of values in a list, then the values. -/
def vector {α : Type} [Encode α] (b : Buffer) (xs : List α) : Buffer :=
  (b.count xs.length).entries xs

/-- Nothing is written for no entries. -/
@[simp]
theorem entries_nil {α : Type} [Encode α] (b : Buffer) : b.entries ([] : List α) = b := rfl

/-- Entries are written from the first one on. -/
@[simp]
theorem entries_cons {α : Type} [Encode α] (b : Buffer) (x : α) (xs : List α) :
    b.entries (x :: xs) = (encode b x).entries xs := rfl

end Buffer

end WasmAssembly
