import Mathlib.Algebra.Group.Nat.Defs
import WasmAssembly.Leb128.Unsigned

/-!
# `WasmAssembly.Proofs.Leb128.Unsigned`: unsigned integers as bytes

`unsigned` writes a number in groups of seven bits. The theorems:

* `length_unsigned_le_maxBytes`: a number that fits a width takes at most one byte for every seven
  bits begun.
* `unsigned_append_inj`: no encoding is the beginning of another one, at no width, so the place
  where an encoding ends can be told from its bytes alone.
-/

set_option autoImplicit false

namespace WasmAssembly.Leb128

/-- An admissible bit count makes a width. -/
theorem Width.make_eq_ok {bits : Nat} (signed : Bool) (h : 1 ≤ bits ∧ bits ≤ maxBits) :
    Width.make bits signed = .ok ⟨bits, signed, h.1, h.2⟩ := by
  simp only [Width.make, Width.ofBits?, dif_pos h]

/-- A byte made of a number below 256 holds that number. -/
theorem toNat_ofNat_of_lt {n : Nat} (h : n < 256) : (UInt8.ofNat n).toNat = n := by
  rw [UInt8.toNat_ofNat']
  exact Nat.mod_eq_of_lt h

/-- A number below 128 is written in one byte. -/
theorem unsigned_of_lt {n : Nat} (h : n < 128) : unsigned n = [UInt8.ofNat n] := by
  rw [unsigned, if_pos h]

/-- Any other number is written as its low group, with the mark that another one follows, and the
rest. -/
theorem unsigned_of_ge {n : Nat} (h : ¬n < 128) :
    unsigned n = UInt8.ofNat (n % 128 + 128) :: unsigned (n / 128) := by
  rw [unsigned, if_neg h]

/-- Every encoding has at least one byte. -/
theorem unsigned_ne_nil (n : Nat) : unsigned n ≠ [] := by
  rw [unsigned]
  split <;> simp

/-- The byte of a group that others follow holds the group and the continuation bit. -/
theorem toNat_continued (n : Nat) : (UInt8.ofNat (n % 128 + 128)).toNat = n % 128 + 128 :=
  toNat_ofNat_of_lt (by omega)

/-! ### Lengths -/

/-- There is room for all bits of a width in the bytes that it allows. -/
theorem Width.bits_le_maxBytes (w : Width) : w.bits ≤ 7 * w.maxBytes := by
  rw [Width.maxBytes]
  omega

/-- Every width allows a byte. -/
theorem Width.one_le_maxBytes (w : Width) : 1 ≤ w.maxBytes := by
  have := w.one_le_bits
  rw [Width.maxBytes]
  omega

/-- A number of `7 * k` bits has `k` groups at most. -/
theorem length_unsigned_le {n k : Nat} (hk : 1 ≤ k) (h : n < 2 ^ (7 * k)) :
    (unsigned n).length ≤ k := by
  induction n using Nat.strongRecOn generalizing k with
  | ind n ih =>
      by_cases hlast : n < 128
      · rw [unsigned_of_lt hlast, List.length_singleton]
        exact hk
      · -- There are at least two groups, so there is room for the one that is taken off.
        obtain ⟨j, rfl⟩ : ∃ j, k = j + 1 := ⟨k - 1, by omega⟩
        rw [show 7 * (j + 1) = 7 * j + 7 by omega, Nat.pow_add] at h
        have hj : 1 ≤ j := by
          obtain rfl | hpos := Nat.eq_zero_or_pos j
          · omega
          · exact hpos
        have hrest := ih (n / 128) (by omega) hj (by omega)
        rw [unsigned_of_ge hlast, List.length_cons]
        omega

/-- A number that fits a width takes no more bytes than the width allows. -/
theorem length_unsigned_le_maxBytes {w : Width} {n : Nat} (h : n < 2 ^ w.bits) :
    (unsigned n).length ≤ w.maxBytes := by
  have hpow : 2 ^ w.bits ≤ 2 ^ (7 * w.maxBytes) :=
    Nat.pow_le_pow_right (by decide) w.bits_le_maxBytes
  exact length_unsigned_le w.one_le_maxBytes (Nat.lt_of_lt_of_le h hpow)

/-! ### Telling encodings apart -/

/-- Two numbers whose encodings begin some bytes are the same, and so are the bytes behind. -/
theorem unsigned_append_inj {a b : Nat} {s t : Bytes} (h : unsigned a ++ s = unsigned b ++ t) :
    a = b ∧ s = t := by
  induction a using Nat.strongRecOn generalizing b with
  | ind a ih =>
      -- If only one of the two goes on, the first bytes differ in the continuation bit.
      by_cases ha : a < 128 <;> by_cases hb : b < 128
      · rw [unsigned_of_lt ha, unsigned_of_lt hb] at h
        obtain ⟨hbyte, hrest⟩ := List.cons_eq_cons.mp h
        have hnat := congrArg UInt8.toNat hbyte
        rw [toNat_ofNat_of_lt (by omega), toNat_ofNat_of_lt (by omega)] at hnat
        exact ⟨hnat, hrest⟩
      · rw [unsigned_of_lt ha, unsigned_of_ge hb] at h
        have hnat := congrArg UInt8.toNat (List.cons_eq_cons.mp h).1
        rw [toNat_ofNat_of_lt (by omega), toNat_continued] at hnat
        omega
      · rw [unsigned_of_ge ha, unsigned_of_lt hb] at h
        have hnat := congrArg UInt8.toNat (List.cons_eq_cons.mp h).1
        rw [toNat_continued, toNat_ofNat_of_lt (by omega)] at hnat
        omega
      · -- Both go on: the low groups agree, and so does what the rest encodes.
        rw [unsigned_of_ge ha, unsigned_of_ge hb] at h
        obtain ⟨hbyte, htail⟩ := List.cons_eq_cons.mp h
        have hlow := congrArg UInt8.toNat hbyte
        rw [toNat_continued, toNat_continued] at hlow
        obtain ⟨hhigh, hrest⟩ := ih (a / 128) (by omega) htail
        exact ⟨by omega, hrest⟩

end WasmAssembly.Leb128
