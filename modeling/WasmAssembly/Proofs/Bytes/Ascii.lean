import WasmAssembly.Bytes

/-!
# `WasmAssembly.Proofs.Bytes.Ascii`: the bytes of ASCII texts

The bytes of a text tell which text it is. A character below 128 is one byte, and no other character
has bytes below 128, so an ASCII text can be read off its bytes one by one (`utf8_ofList_of_ascii`,
`eq_ofList_of_utf8`).
-/

set_option autoImplicit false

namespace WasmAssembly.Bytes

/-- The bytes of a text are those of its characters, in order. -/
theorem utf8_ofList (cs : List Char) :
    utf8 (String.ofList cs) = cs.flatMap String.utf8EncodeChar := by
  rw [utf8, String.toByteArray_ofList, List.utf8Encode, List.data_toByteArray]

/-- Texts are told apart by their bytes. -/
theorem utf8_injective {s t : String} (h : utf8 s = utf8 t) : s = t := by
  have hs := ofUtf8?_utf8 s
  rw [h, ofUtf8?_utf8, Option.some.injEq] at hs
  exact hs.symm

/-- An ASCII character is one byte. -/
theorem utf8EncodeChar_of_ascii {c : Char} (h : c.toNat < 128) :
    String.utf8EncodeChar c = [c.toUInt8] := by
  have hsize : c.utf8Size = 1 := by
    rw [Char.utf8Size_eq_one_iff, UInt32.le_iff_toNat_le]
    exact Nat.le_of_lt_succ h
  rw [String.utf8EncodeChar_eq_singleton hsize, Char.toUInt8_val]

/-- An ASCII text has one byte for each character. -/
theorem utf8_ofList_of_ascii {cs : List Char} (h : ∀ c ∈ cs, c.toNat < 128) :
    utf8 (String.ofList cs) = cs.map Char.toUInt8 := by
  rw [utf8_ofList]
  induction cs with
  | nil => rfl
  | cons c cs ih =>
      rw [List.flatMap_cons, utf8EncodeChar_of_ascii (h c List.mem_cons_self),
        ih fun d hd => h d (List.mem_cons_of_mem c hd)]
      rfl

/-- The byte of an ASCII character is its number. -/
theorem toNat_toUInt8 {c : Char} (h : c.toNat < 128) : c.toUInt8.toNat = c.toNat := by
  show c.toNat % 256 = c.toNat
  omega

/-- ASCII characters are told apart by their bytes. -/
theorem toUInt8_inj {c : Char} (hc : c.toNat < 128) (d : Char) (hd : d.toNat < 128) :
    c.toUInt8 = d.toUInt8 ↔ c = d := by
  rw [← UInt8.toNat_inj, toNat_toUInt8 hc, toNat_toUInt8 hd, Char.toNat_inj]

/-- A byte that is taken for a character gives the byte back. -/
theorem toUInt8_ofUInt8 (b : UInt8) : (Char.ofUInt8 b).toUInt8 = b :=
  UInt8.toUInt8_toUInt32 b

/-- A byte that is taken for a character keeps its number. -/
theorem toNat_ofUInt8 (b : UInt8) : (Char.ofUInt8 b).toNat = b.toNat :=
  UInt8.toNat_toUInt32 b

/-- A text whose bytes are all below 128 has the characters with these codes. -/
theorem eq_ofList_of_utf8 {text : String} {bytes : Bytes} (h : utf8 text = bytes)
    (hascii : ∀ b ∈ bytes, b.toNat < 128) : text = String.ofList (bytes.map Char.ofUInt8) := by
  apply utf8_injective
  have hchars : ∀ c ∈ bytes.map Char.ofUInt8, c.toNat < 128 := by
    intro c hc
    obtain ⟨b, hb, rfl⟩ := List.mem_map.mp hc
    rw [toNat_ofUInt8]
    exact hascii b hb
  rw [utf8_ofList_of_ascii hchars, h, List.map_map]
  have hcodes : bytes.map (Char.toUInt8 ∘ Char.ofUInt8) = bytes.map id :=
    List.map_congr_left fun b _ => toUInt8_ofUInt8 b
  rw [hcodes, List.map_id]

end WasmAssembly.Bytes
