import WasmAssembly.Bytes.Take
import WasmAssembly.Proofs.Bytes.Encode
import WasmAssembly.Proofs.Leb128.Decoding

/-!
# `WasmAssembly.Proofs.Reading.Reader`: readers and what they find

A `ByteReader` takes an item from the front of some bytes and leaves the rest, or fails. Readers for
the pieces that the whole format is made of are here: bytes, integers, names, runs of bytes with
their length in front, vectors.

`Reads p bytes a` says that `p` finds `a` in `bytes` whatever comes behind them, and takes exactly
these bytes. It composes: what two readers find one after the other is in the bytes of the two one
after the other (`Reads.bind`). Counts and lengths have 32 bits, so most of what is proved about
longer pieces needs them to be short, which `ReadsShort` carries along: of two pieces that are
short together, each is short.
-/

set_option autoImplicit false

namespace WasmAssembly

/-- Takes an item from the front of some bytes and leaves the rest, or fails. -/
abbrev ByteReader (α : Type) := StateT Bytes Option α

namespace ByteReader

variable {α β : Type}

/-- Takes nothing, and fails without an item. -/
def ofOption (item : Option α) : ByteReader α := fun bytes => item.map (·, bytes)

/-- One byte. -/
def byte : ByteReader UInt8 := fun bytes =>
  match bytes with
  | [] => none
  | b :: rest => some (b, rest)

/-- One byte that can only be `x`. -/
def expect (x : UInt8) : ByteReader Unit := do
  let b ← byte
  ofOption (if b = x then some () else none)

/-- An unsigned integer of 32 bits, as a word. -/
def u32 : ByteReader UInt32 := Bytes.takeU32?

/-- A count, a length or a position: an unsigned integer of 32 bits. -/
def index : ByteReader Nat := Bytes.takeUnsigned? 32

/-- A signed integer. -/
def signed (bits : Nat) : ByteReader Int := Bytes.takeSigned? bits

/-- A number of a fixed number of bytes, least significant first. -/
def pattern (count : Nat) : ByteReader Nat := Bytes.takeLittleEndian? count

/-- Exactly `count` bytes. -/
def take (count : Nat) : ByteReader Bytes := fun bytes =>
  if count ≤ bytes.length then some (bytes.take count, bytes.drop count) else none

/-- All bytes that are left. -/
def remaining : ByteReader Bytes := fun bytes => some (bytes, [])

/-- A length, then that many bytes. -/
def sized : ByteReader Bytes := do
  let length ← index
  take length

/-- A name: its UTF-8 bytes after their length. -/
def name : ByteReader String := do
  let bytes ← sized
  ofOption (Bytes.ofUtf8? bytes)

/-- `count` items. -/
def times (p : ByteReader α) : (count : Nat) → ByteReader (List α)
  | 0 => pure []
  | count + 1 => do
    let x ← p
    let xs ← times p count
    return x :: xs

/-- A count, then that many items. -/
def vector (p : ByteReader α) : ByteReader (List α) := do
  let count ← index
  times p count

/-- The item that some bytes consist of. No byte may be left over. -/
def whole (p : ByteReader α) (bytes : Bytes) : Option α :=
  match p.run bytes with
  | some (a, []) => some a
  | _ => none

/-- The items that some bytes consist of. Each takes at least one byte. -/
def many (p : ByteReader α) (bytes : Bytes) : Option (List α) :=
  match bytes with
  | [] => some []
  | b :: bs =>
    match p.run (b :: bs) with
    | none => none
    | some (a, rest) =>
      if rest.length < (b :: bs).length then (many p rest).map (a :: ·) else none
termination_by bytes.length
decreasing_by assumption

end ByteReader

open ByteReader

variable {α β : Type}

/-! ### Finding an item -/

/-- `p` finds `a` in exactly these bytes, whatever comes behind them. -/
def Reads (p : ByteReader α) (bytes : Bytes) (a : α) : Prop :=
  ∀ rest, p.run (bytes ++ rest) = some (a, rest)

/-- `p` finds `a` in these bytes if they are few enough for counts and lengths of 32 bits. -/
def ReadsShort (p : ByteReader α) (bytes : Bytes) (a : α) : Prop :=
  bytes.length < UInt32.size → Reads p bytes a

/-- What can be read whatever its length can be read if it is short. -/
theorem Reads.short {p : ByteReader α} {bytes : Bytes} {a : α} (h : Reads p bytes a) :
    ReadsShort p bytes a :=
  fun _ => h

/-- What two readers find one after the other. -/
theorem Reads.bind {p : ByteReader α} {f : α → ByteReader β} {xs ys : Bytes} {a : α} {b : β}
    (hp : Reads p xs a) (hf : Reads (f a) ys b) : Reads (p >>= f) (xs ++ ys) b := by
  intro rest
  rw [StateT.run_bind, List.append_assoc, hp]
  exact hf rest

/-- Pieces that are short together are short, so `Reads.bind` applies to them. -/
theorem ReadsShort.bind {p : ByteReader α} {f : α → ByteReader β} {xs ys : Bytes} {a : α} {b : β}
    (hp : ReadsShort p xs a) (hf : ReadsShort (f a) ys b) : ReadsShort (p >>= f) (xs ++ ys) b := by
  intro hshort
  rw [List.length_append] at hshort
  exact (hp (by omega)).bind (hf (by omega))

/-- A value that is given without reading takes no byte. -/
theorem Reads.pure (a : α) : Reads (pure a) [] a :=
  fun _ => rfl

/-- A last step that only computes takes no bytes. -/
theorem Reads.map {p : ByteReader α} {xs : Bytes} {a : α} (hp : Reads p xs a) (f : α → β) :
    Reads (p >>= fun x => Pure.pure (f x)) xs (f a) := by
  have h := hp.bind (f := fun x => Pure.pure (f x)) (Reads.pure (f a))
  rwa [List.append_nil] at h

/-- A value that is only rewritten is read from the same bytes. -/
theorem ReadsShort.map {p : ByteReader α} {xs : Bytes} {a : α} (hp : ReadsShort p xs a)
    (f : α → β) :
    ReadsShort (p >>= fun x => Pure.pure (f x)) xs (f a) :=
  fun hshort => (hp hshort).map f

/-- A last step that looks an item up takes no bytes. -/
theorem Reads.lookup {p : ByteReader α} {xs : Bytes} {a : α} {b : β} {g : α → Option β}
    (hp : Reads p xs a) (hg : g a = some b) : Reads (p >>= fun x => ofOption (g x)) xs b := by
  intro rest
  rw [StateT.run_bind, hp]
  show (g a).map (·, rest) = some (b, rest)
  rw [hg]
  rfl

/-- A value that is looked up is read from the same bytes if it is found. -/
theorem ReadsShort.lookup {p : ByteReader α} {xs : Bytes} {a : α} {b : β} {g : α → Option β}
    (hp : ReadsShort p xs a) (hg : g a = some b) :
    ReadsShort (p >>= fun x => ofOption (g x)) xs b :=
  fun hshort => (hp hshort).lookup hg

/-! ### Bytes and integers -/

/-- A byte is read as it is. -/
theorem reads_byte (b : UInt8) : Reads byte [b] b :=
  fun _ => rfl

/-- An expected byte is read if it is there. -/
theorem reads_expect (x : UInt8) : Reads (expect x) [x] () :=
  (reads_byte x).lookup (if_pos rfl)

/-- The bits of a count: 32 is an admissible width. -/
theorem one_le_indexBits : 1 ≤ 32 ∧ 32 ≤ Leb128.maxBits := by decide

/-- A number that fits a width reads back at it. -/
theorem takeUnsigned?_append {bits n : Nat} (hbits : 1 ≤ bits ∧ bits ≤ Leb128.maxBits)
    (h : n < 2 ^ bits) (rest : Bytes) :
    Bytes.takeUnsigned? bits (Leb128.unsigned n ++ rest) = some (n, rest) := by
  rw [Bytes.takeUnsigned?, Leb128.decodeUnsigned_unsigned hbits h]
  show some (n, List.drop _ _) = _
  rw [List.drop_left]

/-- An index of 32 bits is read from its encoding. -/
theorem reads_index {n : Nat} (h : n < UInt32.size) : Reads index (Leb128.unsigned n) n :=
  takeUnsigned?_append one_le_indexBits h

/-- A word of 32 bits is read from its encoding. -/
theorem reads_u32 (v : UInt32) : Reads u32 (Leb128.unsigned v.toNat) v := by
  intro rest
  show (Bytes.takeUnsigned? 32 _).map _ = _
  rw [takeUnsigned?_append one_le_indexBits v.toNat_lt]
  show some (UInt32.ofNat v.toNat, rest) = some (v, rest)
  rw [UInt32.ofNat_toNat]

/-- An integer that fits a width reads back at it. -/
theorem reads_signed {bits : Nat} {z : Int} (hbits : 1 ≤ bits ∧ bits ≤ Leb128.maxBits)
    (hlow : -(2 ^ (bits - 1) : Nat) ≤ z) (hhigh : z < (2 ^ (bits - 1) : Nat)) :
    Reads (signed bits) (Leb128.signed z) z := by
  intro rest
  show Bytes.takeSigned? bits _ = _
  rw [Bytes.takeSigned?, Leb128.decodeSigned_signed hbits hlow hhigh]
  show some (z, List.drop _ _) = _
  rw [List.drop_left]

/-- A number that fits its bytes reads back from them. -/
theorem reads_pattern {count n : Nat} (h : n < 256 ^ count) :
    Reads (pattern count) (Bytes.littleEndian count n) n := by
  intro rest
  have hlength := Bytes.length_littleEndian count n
  show Bytes.takeLittleEndian? count _ = _
  simp only [Bytes.takeLittleEndian?, List.take_left' hlength, List.drop_left' hlength, hlength,
    if_true, Bytes.ofLittleEndian_littleEndian h]

/-- The integer of a word reads back at the width of the word. -/
theorem reads_i32 (v : Int32) : Reads (signed 32) (Leb128.signed v.toInt) v.toInt :=
  reads_signed (by decide) v.le_toInt v.toInt_lt

/-- A signed word of 64 bits is read from its encoding. -/
theorem reads_i64 (v : Int64) : Reads (signed 64) (Leb128.signed v.toInt) v.toInt :=
  reads_signed (by decide) v.le_toInt v.toInt_lt

/-- The pattern of a float reads back from as many bytes as it has. -/
theorem reads_f32 (bits : UInt32) :
    Reads (pattern 4) (Bytes.littleEndian 4 bits.toNat) bits.toNat :=
  reads_pattern bits.toNat_lt

/-- The pattern of a float of 64 bits is read from its bytes. -/
theorem reads_f64 (bits : UInt64) :
    Reads (pattern 8) (Bytes.littleEndian 8 bits.toNat) bits.toNat :=
  reads_pattern bits.toNat_lt

/-! ### Runs, names and vectors -/

/-- Bytes are taken as they are, as many as there should be. -/
theorem reads_take (bytes : Bytes) : Reads (take bytes.length) bytes bytes := by
  intro rest
  have hle : bytes.length ≤ (bytes ++ rest).length := by
    rw [List.length_append]
    exact Nat.le_add_right _ _
  show (if bytes.length ≤ (bytes ++ rest).length then _ else _) = _
  rw [if_pos hle, List.take_left, List.drop_left]

/-- A run of fewer than `2 ^ 32` bytes reads back behind its length. -/
theorem reads_sized {bytes : Bytes} (h : bytes.length < UInt32.size) :
    Reads sized (sizedBytes bytes) bytes :=
  (reads_index h).bind (reads_take bytes)

/-- What has its length in front of it is read if its length has 32 bits. -/
theorem readsShort_sized (bytes : Bytes) : ReadsShort sized (sizedBytes bytes) bytes := by
  intro hshort
  rw [sizedBytes, List.length_append] at hshort
  exact reads_sized (by omega)

/-- A name is read if its length has 32 bits. -/
theorem readsShort_name (text : String) : ReadsShort name (nameBytes text) text :=
  (readsShort_sized _).lookup (Bytes.ofUtf8?_utf8 text)

/-- Items that are read one by one are read in a row. -/
theorem readsShort_times {p : ByteReader α} {form : α → Bytes} {xs : List α}
    (h : ∀ x ∈ xs, ReadsShort p (form x) x) :
    ReadsShort (times p xs.length) (xs.flatMap form) xs := by
  induction xs with
  | nil => exact (Reads.pure []).short
  | cons x xs ih =>
      have hx := h x List.mem_cons_self
      have hxs := ih fun y hy => h y (List.mem_cons_of_mem x hy)
      exact hx.bind (hxs.map (x :: ·))

/-- A vector of items reads back behind its count, if each item takes some bytes: then the count
is short with the rest. -/
theorem readsShort_vector {p : ByteReader α} {form : α → Bytes} {xs : List α}
    (h : ∀ x ∈ xs, ReadsShort p (form x) x) (hne : ∀ x ∈ xs, form x ≠ []) :
    ReadsShort (vector p) (Leb128.unsigned xs.length ++ xs.flatMap form) xs := by
  intro hshort
  -- Without this a count could be too large for 32 bits, and no byte would tell.
  have hcount := length_le_length_flatMap hne
  rw [List.length_append] at hshort
  exact (reads_index (by omega)).bind (readsShort_times h (by omega))

/-! ### Consuming all bytes -/

/-- Bytes that say one value and nothing else are read as the value. -/
theorem whole_of_reads {p : ByteReader α} {bytes : Bytes} {a : α} (h : Reads p bytes a) :
    whole p bytes = some a := by
  have hrun := h []
  rw [List.append_nil] at hrun
  rw [whole, hrun]

/-- An item, then everything that is left. -/
theorem whole_bind_remaining {p : ByteReader α} {xs : Bytes} {a : α} (h : Reads p xs a)
    (f : α → Bytes → β) (ys : Bytes) :
    whole (do let a ← p; let rest ← remaining; return f a rest) (xs ++ ys) = some (f a ys) := by
  rw [whole, StateT.run_bind, h]
  rfl

/-- Items one after the other, each of at least one byte, are found in order. -/
theorem many_flatMap {p : ByteReader α} {form : α → Bytes} {xs : List α}
    (h : ∀ x ∈ xs, Reads p (form x) x) (hne : ∀ x ∈ xs, form x ≠ []) :
    many p (xs.flatMap form) = some xs := by
  induction xs with
  | nil => rw [List.flatMap_nil, many]
  | cons x xs ih =>
      have hrest := ih (fun y hy => h y (List.mem_cons_of_mem x hy))
        fun y hy => hne y (List.mem_cons_of_mem x hy)
      -- `many` goes on only if something was taken: the first item has a first byte.
      obtain ⟨b, bs, hform⟩ := List.exists_cons_of_ne_nil (hne x List.mem_cons_self)
      have hrun := h x List.mem_cons_self (xs.flatMap form)
      have hshorter : (xs.flatMap form).length < (b :: (bs ++ xs.flatMap form)).length := by
        rw [List.length_cons, List.length_append]
        omega
      rw [hform, List.cons_append] at hrun
      rw [List.flatMap_cons, hform, List.cons_append, many, hrun]
      simp only [if_pos hshorter, hrest, Option.map_some]

end WasmAssembly
