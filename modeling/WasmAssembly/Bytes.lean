/-!
# `WasmAssembly.Bytes`: byte sequences

Everything at rest is a `Bytes` value: function bodies, segment contents, sections and whole
modules. Names are `String`s, and `utf8` and `ofUtf8?` pass between the two. The main statement
is `ofUtf8?_utf8`: the bytes of a name read back as that name.
-/

set_option autoImplicit false

namespace WasmAssembly

/-- A finite sequence of bytes. -/
abbrev Bytes := List UInt8

namespace Bytes

/-- The UTF-8 bytes of a name. -/
def utf8 (name : String) : Bytes :=
  name.toByteArray.data.toList

/-- The name whose UTF-8 bytes are given, if they are well formed. -/
def ofUtf8? (bytes : Bytes) : Option String :=
  String.fromUTF8? ⟨bytes.toArray⟩

/-- The bytes of a text give it back. -/
@[simp]
theorem ofUtf8?_utf8 (name : String) : ofUtf8? (utf8 name) = some name := by
  have h : (⟨(utf8 name).toArray⟩ : ByteArray) = name.toByteArray := by simp [utf8]
  simp only [ofUtf8?, String.fromUTF8?, h]
  rw [dif_pos name.isValidUTF8]
  rfl

/-- The `count` low bytes of a number, least significant first. -/
def littleEndian : (count : Nat) → Nat → Bytes
  | 0, _ => []
  | count + 1, n => UInt8.ofNat n :: littleEndian count (n / 256)

/-- The number whose bytes are given, least significant first. -/
def ofLittleEndian : Bytes → Nat
  | [] => 0
  | b :: rest => b.toNat + 256 * ofLittleEndian rest

end Bytes

end WasmAssembly
