import WasmAssembly.Bytes.Encode
import WasmAssembly.Proofs.Bytes.Buffer

/-!
# `WasmAssembly.Proofs.Bytes.Encode`: encodings that only append

An encoding may write anywhere in its buffer as far as the class `Encode` goes. `LawfulEncode` says
that it appends: behind whatever has been written stands what the value writes to an empty buffer,
`toBytes`. Every type of the format has an instance, and from then on lists of values are
concatenations:

* `toList_entries`: values written one after the other stand one after the other.
* `toList_vector`: the same with their number in front.

`PrefixFree` goes further: the bytes of a value show where they end, whatever comes behind them. The
number in front of a list makes lists of such values prefix-free too (`vectorBytes_append_inj`).
-/

set_option autoImplicit false

namespace WasmAssembly

/-- A type whose values are written behind what is there. -/
class LawfulEncode (α : Type) [Encode α] : Prop where
  /-- What a value appends does not depend on the buffer. -/
  toList_encode : ∀ (b : Buffer) (a : α), (encode b a).toList = b.toList ++ toBytes a

export LawfulEncode (toList_encode)

attribute [simp] LawfulEncode.toList_encode

variable {α : Type} [Encode α]

/-- What a value writes to an empty buffer, where what it appends can be written down. -/
theorem toBytes_of_form {form : α → Bytes}
    (h : ∀ (b : Buffer) (a : α), (encode b a).toList = b.toList ++ form a) (a : α) :
    toBytes a = form a := by
  rw [toBytes, h, Buffer.toList_empty, List.nil_append]

/-- A type is lawful if what its values append can be written down. -/
theorem LawfulEncode.of_form {form : α → Bytes}
    (h : ∀ (b : Buffer) (a : α), (encode b a).toList = b.toList ++ form a) : LawfulEncode α where
  toList_encode b a := by rw [h, toBytes_of_form h]

/-- Some bytes after their number. -/
def sizedBytes (payload : Bytes) : Bytes :=
  Leb128.unsigned payload.length ++ payload

/-- The bytes of a name: its UTF-8 bytes after their number. -/
def nameBytes (text : String) : Bytes :=
  sizedBytes (Bytes.utf8 text)

/-- The bytes of a list of values, one after the other. -/
def listBytes (xs : List α) : Bytes :=
  xs.flatMap toBytes

/-- The bytes of a list of values, after their number. -/
def vectorBytes (xs : List α) : Bytes :=
  Leb128.unsigned xs.length ++ listBytes xs

/-- No items have no bytes. -/
@[simp]
theorem listBytes_nil : listBytes ([] : List α) = [] := rfl

/-- The bytes of the first item come first. -/
@[simp]
theorem listBytes_cons (x : α) (xs : List α) : listBytes (x :: xs) = toBytes x ++ listBytes xs :=
  rfl

/-- There are no more items than bytes, if each item takes some. -/
theorem length_le_length_flatMap {β : Type} {form : β → Bytes} {xs : List β}
    (h : ∀ x ∈ xs, form x ≠ []) : xs.length ≤ (xs.flatMap form).length := by
  induction xs with
  | nil => exact Nat.zero_le _
  | cons x xs ih =>
      have hx := List.length_pos_iff.mpr (h x List.mem_cons_self)
      have hxs := ih fun y hy => h y (List.mem_cons_of_mem x hy)
      rw [List.flatMap_cons, List.length_cons, List.length_append]
      omega

namespace Buffer

/-- What is written for one item after the other stands there one after the other. -/
theorem toList_foldl {β : Type} {write : Buffer → β → Buffer} {form : β → Bytes}
    (h : ∀ b x, (write b x).toList = b.toList ++ form x) (b : Buffer) (xs : List β) :
    (xs.foldl write b).toList = b.toList ++ xs.flatMap form := by
  induction xs generalizing b with
  | nil => rw [List.foldl_nil, List.flatMap_nil, List.append_nil]
  | cons x xs ih => rw [List.foldl_cons, ih, h, List.flatMap_cons, List.append_assoc]

variable [LawfulEncode α]

/-- Entries append the bytes of the items. -/
@[simp]
theorem toList_entries (b : Buffer) (xs : List α) :
    (b.entries xs).toList = b.toList ++ listBytes xs :=
  toList_foldl toList_encode b xs

/-- A vector appends its count and the bytes of its items. -/
@[simp]
theorem toList_vector (b : Buffer) (xs : List α) :
    (b.vector xs).toList = b.toList ++ vectorBytes xs := by
  rw [vector, toList_entries, toList_count, vectorBytes, List.append_assoc]

end Buffer

/-! ### Telling values apart -/

/-- A type whose encodings show where they end: two values whose bytes begin the same sequence are
the same value, and the same bytes come behind them. -/
class PrefixFree (α : Type) [Encode α] : Prop extends LawfulEncode α where
  /-- The value and the rest can be told from the bytes. -/
  append_inj : ∀ (a b : α) (s t : Bytes), toBytes a ++ s = toBytes b ++ t → a = b ∧ s = t

section PrefixFree

variable [PrefixFree α]

/-- Values with the same binary form are the same. -/
theorem PrefixFree.toBytes_injective {a b : α} (h : toBytes a = toBytes b) : a = b := by
  have hempty : toBytes a ++ [] = toBytes b ++ [] := by rw [h]
  exact (PrefixFree.append_inj a b [] [] hempty).1

/-- Lists of one length are told apart value by value. -/
theorem listBytes_append_inj {xs ys : List α} {s t : Bytes} (hlength : xs.length = ys.length)
    (h : listBytes xs ++ s = listBytes ys ++ t) : xs = ys ∧ s = t := by
  induction xs generalizing ys with
  | nil =>
      obtain rfl := List.length_eq_zero_iff.mp hlength.symm
      exact ⟨rfl, h⟩
  | cons x xs ih =>
      cases ys with
      | nil => exact absurd hlength (Nat.succ_ne_zero _)
      | cons y ys =>
          rw [listBytes_cons, listBytes_cons, List.append_assoc, List.append_assoc] at h
          obtain ⟨rfl, hrest⟩ := PrefixFree.append_inj x y _ _ h
          obtain ⟨rfl, rfl⟩ := ih (Nat.succ.inj hlength) hrest
          exact ⟨rfl, rfl⟩

/-- Where a vector ends can be told from its bytes, however many values it has. -/
theorem vectorBytes_append_inj {xs ys : List α} {s t : Bytes}
    (h : vectorBytes xs ++ s = vectorBytes ys ++ t) : xs = ys ∧ s = t := by
  rw [vectorBytes, vectorBytes, List.append_assoc, List.append_assoc] at h
  obtain ⟨hlength, hvalues⟩ := Leb128.unsigned_append_inj h
  exact listBytes_append_inj hlength hvalues

end PrefixFree

end WasmAssembly
