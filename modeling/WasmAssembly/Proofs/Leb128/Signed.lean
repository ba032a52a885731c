import WasmAssembly.Leb128.Signed
import WasmAssembly.Proofs.Leb128.Unsigned

/-!
# `WasmAssembly.Proofs.Leb128.Signed`: signed integers as bytes

`signed` writes an integer in two's complement, in groups of seven bits. Bit 6 of the last group is
its sign: `signedGroup` is what a group tells that is read like this, and the integers of one group
are those that it tells (`signedGroup_lowGroup`). `length_signed_le_maxBytes` says that an integer
that fits a width takes at most one byte for every seven bits begun.
-/

set_option autoImplicit false

namespace WasmAssembly.Leb128

/-- A group has seven bits. -/
theorem lowGroup_lt (z : Int) : lowGroup z < 128 := by
  have := Int.emod_lt_of_pos z (show (0 : Int) < 128 by decide)
  rw [lowGroup]
  omega

/-- An integer that ends with its low group is written in one byte. -/
theorem signed_of_ends {z : Int} (h : endsWithGroup z) : signed z = [UInt8.ofNat (lowGroup z)] := by
  rw [signed, if_pos h]

/-- Any other integer is written as its low group, with the mark that another one follows, and the
rest. -/
theorem signed_of_not_ends {z : Int} (h : ¬endsWithGroup z) :
    signed z = UInt8.ofNat (lowGroup z + 128) :: signed (z / 128) := by
  rw [signed, if_neg h]

/-- The integers that one group tells are those from -64 to 63. -/
theorem endsWithGroup_iff (z : Int) : endsWithGroup z ↔ -64 ≤ z ∧ z < 64 := by
  simp only [endsWithGroup, lowGroup]
  omega

/-- The integer that a last group denotes: its bit 6 is the sign. -/
def signedGroup (group : Nat) : Int :=
  if 64 ≤ group then (group : Int) - 128 else group

/-- An integer of one group is what that group denotes. -/
theorem signedGroup_lowGroup {z : Int} (h : endsWithGroup z) : signedGroup (lowGroup z) = z := by
  rw [endsWithGroup_iff] at h
  -- From 64 on, bit 6 of the group is set and the integer is negative.
  by_cases hneg : 64 ≤ lowGroup z
  · rw [signedGroup, if_pos hneg]
    rw [lowGroup] at hneg ⊢
    omega
  · rw [signedGroup, if_neg hneg]
    rw [lowGroup] at hneg ⊢
    omega

/-- An integer of `7 * k` bits in two's complement has `k` groups at most. -/
theorem length_signed_le {z : Int} {k : Nat} (hk : 1 ≤ k)
    (hlow : -(2 ^ (7 * k - 1) : Nat) ≤ z) (hhigh : z < (2 ^ (7 * k - 1) : Nat)) :
    (signed z).length ≤ k := by
  -- The cases are those of `signed`: a last group, or one that others follow.
  induction z using signed.induct generalizing k with
  | case1 z hends =>
      rw [signed_of_ends hends, List.length_singleton]
      exact hk
  | case2 z hends ih =>
      rw [endsWithGroup_iff] at hends
      obtain ⟨j, rfl⟩ : ∃ j, k = j + 1 := ⟨k - 1, by omega⟩
      have hj : 1 ≤ j := by
        obtain rfl | hpos := Nat.eq_zero_or_pos j
        · omega
        · exact hpos
      -- Taking a group off divides the bounds by 128.
      have hpow : 2 ^ (7 * (j + 1) - 1) = 2 ^ (7 * j - 1) * 128 := by
        rw [show 7 * (j + 1) - 1 = 7 * j - 1 + 7 by omega, Nat.pow_add]
      rw [hpow] at hlow hhigh
      have hrest := ih hj (by omega) (by omega)
      rw [signed_of_not_ends (by rwa [endsWithGroup_iff]), List.length_cons]
      omega

/-- An integer that fits a width takes no more bytes than the width allows. -/
theorem length_signed_le_maxBytes {w : Width} {z : Int} (hlow : -(2 ^ (w.bits - 1) : Nat) ≤ z)
    (hhigh : z < (2 ^ (w.bits - 1) : Nat)) : (signed z).length ≤ w.maxBytes := by
  have hpow : 2 ^ (w.bits - 1) ≤ 2 ^ (7 * w.maxBytes - 1) :=
    Nat.pow_le_pow_right (by decide) (Nat.sub_le_sub_right w.bits_le_maxBytes 1)
  exact length_signed_le w.one_le_maxBytes (by omega) (by omega)

end WasmAssembly.Leb128
