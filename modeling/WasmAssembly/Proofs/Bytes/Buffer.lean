import WasmAssembly.Bytes.Buffer
import WasmAssembly.Proofs.Leb128.Signed

/-!
# `WasmAssembly.Proofs.Bytes.Buffer`: what the integer writers append

The writers of machine words run on the words themselves: masks, shifts and a test of the sign
bit. This module says that they append the encodings of the numbers that the words hold,
`Leb128.unsigned` and `Leb128.signed`, and count the bytes they append. After it no proof looks
into the loops of the writers again.

* `writeU64_eq`, `writeI64_eq`: the buffer after a word, and the count of the bytes it took.
* `toList_u32`, `toList_u64`, `toList_i32`, `toList_i64`: the same through the view `toList`.
* `ofLittleEndian_littleEndian`: a pattern of fixed width reads back from its bytes.
-/

set_option autoImplicit false

namespace WasmAssembly

namespace Buffer

open Leb128

/-! ### Groups of a word -/

/-- The sign bit of a group, tested by a mask. -/
theorem and_signBit {g : Nat} (h : g < 128) :
    (UInt8.ofNat g &&& 0x40 == 0) = decide (g < 64) := by
  -- There are only 128 groups.
  have key : ∀ g, g < 128 → (UInt8.ofNat g &&& 0x40 == 0) = decide (g < 64) := by decide
  exact key g h

/-- The continuation bit, set by a mask. -/
theorem or_continuationBit {g : Nat} (h : g < 128) :
    UInt8.ofNat g ||| 0x80 = UInt8.ofNat (g + 128) := by
  have key : ∀ g, g < 128 → UInt8.ofNat g ||| 0x80 = UInt8.ofNat (g + 128) := by decide
  exact key g h

/-- The low group of an unsigned word, taken by a mask. -/
theorem and_groupMask (v : UInt64) : v.toUInt8 &&& 0x7f = UInt8.ofNat (v.toNat % 128) := by
  apply UInt8.toNat_inj.mp
  rw [UInt8.toNat_and, UInt64.toNat_toUInt8, show (0x7f : UInt8).toNat = 2 ^ 7 - 1 from rfl,
    Nat.and_two_pow_sub_one_eq_mod, toNat_ofNat_of_lt (by omega)]
  omega

/-- The low group of a signed word is that of its bits. -/
theorem lowGroup_toInt (v : Int64) : lowGroup v.toInt = v.toUInt64.toNat % 128 := by
  -- The integer and the bits differ by a multiple of `2 ^ 64`, which does not show in a group.
  have hlt := v.toUInt64.toNat_lt
  rw [← Int64.toInt_toBitVec, BitVec.toInt_eq_toNat_cond, Int64.toNat_toBitVec, lowGroup]
  split <;> omega

/-- The test on words for the last group is the one on integers. -/
theorem isLastGroup_iff (v : Int64) :
    isLastGroup (v >>> 7) (UInt8.ofNat (lowGroup v.toInt)) = true ↔ endsWithGroup v.toInt := by
  have hzero : v >>> 7 = 0 ↔ v.toInt / 128 = 0 := by
    rw [← Int64.toInt_inj, toInt_shiftRight_seven]
    rfl
  have hminus : v >>> 7 = -1 ↔ v.toInt / 128 = -1 := by
    rw [← Int64.toInt_inj, toInt_shiftRight_seven]
    rfl
  simp only [isLastGroup, bne, and_signBit (lowGroup_lt _), endsWithGroup, Bool.or_eq_true,
    Bool.and_eq_true, Bool.not_eq_true', beq_iff_eq, hzero, hminus, decide_eq_true_eq,
    decide_eq_false_iff_not, Nat.not_lt]

/-! ### The writers -/

/-- Writing one byte is appending it. -/
theorem byte_eq_append (b : Buffer) (x : UInt8) : b.byte x = b.append [x] := by
  apply ext_toList
  rw [toList_byte, toList_append]

/-- To append twice is to append both runs at once. -/
theorem append_append (b : Buffer) (xs ys : Bytes) :
    (b.append xs).append ys = b.append (xs ++ ys) := by
  apply ext_toList
  rw [toList_append, toList_append, toList_append, List.append_assoc]

/-- The loop appends the groups of the word and counts them. -/
theorem writeU64_go_eq (b : Buffer) (v : UInt64) (written : Nat) :
    writeU64.go b v written
      = (b.append (unsigned v.toNat), written + (unsigned v.toNat).length) := by
  -- The loop shifts the word, `unsigned` divides the number: the two recur alike.
  induction b, v, written using writeU64.go.induct with
  | case1 b v written rest hrest =>
      have hzero : (v >>> 7).toNat = 0 := congrArg UInt64.toNat hrest
      rw [toNat_shiftRight_seven] at hzero
      have hlt : v.toNat < 128 := by omega
      rw [writeU64.go, dif_pos hrest, and_groupMask, Nat.mod_eq_of_lt hlt, unsigned_of_lt hlt,
        byte_eq_append, List.length_singleton]
  | case2 b v written low rest hrest ih =>
      have hne : (v >>> 7).toNat ≠ 0 := fun h => hrest (UInt64.toNat_inj.mp h)
      rw [toNat_shiftRight_seven] at hne
      have hge : ¬v.toNat < 128 := by omega
      have hgroup : low ||| 0x80 = UInt8.ofNat (v.toNat % 128 + 128) := by
        rw [show low = UInt8.ofNat (v.toNat % 128) from and_groupMask v,
          or_continuationBit (by omega)]
      have hhigh : rest.toNat = v.toNat / 128 := toNat_shiftRight_seven v
      rw [writeU64.go, dif_neg hrest]
      show writeU64.go (b.byte (low ||| 0x80)) rest (written + 1) = _
      rw [ih, hgroup, hhigh, byte_eq_append, append_append, unsigned_of_ge hge,
        List.singleton_append, List.length_cons, Nat.add_right_comm, Nat.add_assoc]

/-- An unsigned word is written as its number. -/
theorem writeU64_eq (b : Buffer) (v : UInt64) :
    b.writeU64 v = (b.append (unsigned v.toNat), (unsigned v.toNat).length) := by
  rw [writeU64, writeU64_go_eq, Nat.zero_add]

/-- The loop appends the groups of the signed word and counts them. -/
theorem writeI64_go_eq (b : Buffer) (v : Int64) (written : Nat) :
    writeI64.go b v written
      = (b.append (signed v.toInt), written + (signed v.toInt).length) := by
  -- As for unsigned words. The shift keeps the sign, so it is the division that rounds down.
  induction b, v, written using writeI64.go.induct with
  | case1 b v written low rest hlast =>
      have hgroup : low = UInt8.ofNat (lowGroup v.toInt) := by
        rw [lowGroup_toInt]
        exact and_groupMask v.toUInt64
      have hends : endsWithGroup v.toInt := (isLastGroup_iff v).mp (hgroup ▸ hlast)
      rw [writeI64.go]
      show (if isLastGroup rest low = true then (b.byte low, written + 1) else _) = _
      rw [if_pos hlast, hgroup, signed_of_ends hends, byte_eq_append, List.length_singleton]
  | case2 b v written low rest hlast ih =>
      have hgroup : low = UInt8.ofNat (lowGroup v.toInt) := by
        rw [lowGroup_toInt]
        exact and_groupMask v.toUInt64
      have hends : ¬endsWithGroup v.toInt := fun h =>
        hlast (hgroup ▸ (isLastGroup_iff v).mpr h)
      have hhigh : rest.toInt = v.toInt / 128 := toInt_shiftRight_seven v
      rw [writeI64.go]
      show (if isLastGroup rest low = true then _
        else writeI64.go (b.byte (low ||| 0x80)) rest (written + 1)) = _
      rw [if_neg hlast, ih, hgroup, or_continuationBit (lowGroup_lt _), hhigh, byte_eq_append,
        append_append, signed_of_not_ends hends, List.singleton_append, List.length_cons,
        Nat.add_right_comm, Nat.add_assoc]

/-- A signed word is written as its integer. -/
theorem writeI64_eq (b : Buffer) (v : Int64) :
    b.writeI64 v = (b.append (signed v.toInt), (signed v.toInt).length) := by
  rw [writeI64, writeI64_go_eq, Nat.zero_add]

/-- A word of 64 bits is written as an unsigned integer. -/
@[simp]
theorem toList_u64 (b : Buffer) (v : UInt64) :
    (b.u64 v).toList = b.toList ++ unsigned v.toNat := by
  rw [u64, writeU64_eq, toList_append]

/-- A word of 32 bits is written as an unsigned integer. -/
@[simp]
theorem toList_u32 (b : Buffer) (v : UInt32) :
    (b.u32 v).toList = b.toList ++ unsigned v.toNat := by
  rw [u32, writeU32, writeU64_eq, toList_append, UInt32.toNat_toUInt64]

/-- A signed word of 64 bits is written as a signed integer. -/
@[simp]
theorem toList_i64 (b : Buffer) (v : Int64) :
    (b.i64 v).toList = b.toList ++ signed v.toInt := by
  rw [i64, writeI64_eq, toList_append]

/-- A signed word of 32 bits is written as a signed integer. -/
@[simp]
theorem toList_i32 (b : Buffer) (v : Int32) :
    (b.i32 v).toList = b.toList ++ signed v.toInt := by
  rw [i32, writeI32, writeI64_eq, toList_append, Int32.toInt_toInt64]

/-- A float of 32 bits is written as the four bytes of its pattern. -/
@[simp]
theorem toList_f32 (b : Buffer) (pattern : UInt32) :
    (b.f32 pattern).toList = b.toList ++ Bytes.littleEndian 4 pattern.toNat := by
  rw [f32, toList_append]

/-- A float of 64 bits is written as the eight bytes of its pattern. -/
@[simp]
theorem toList_f64 (b : Buffer) (pattern : UInt64) :
    (b.f64 pattern).toList = b.toList ++ Bytes.littleEndian 8 pattern.toNat := by
  rw [f64, toList_append]

end Buffer

namespace Bytes

/-! ### Patterns of fixed width -/

/-- A number is written in as many bytes as are asked for. -/
@[simp]
theorem length_littleEndian (count n : Nat) : (littleEndian count n).length = count := by
  induction count generalizing n with
  | zero => rfl
  | succ count ih => rw [littleEndian, List.length_cons, ih]

/-- A number that fits its bytes reads back from them. -/
theorem ofLittleEndian_littleEndian {count n : Nat} (h : n < 256 ^ count) :
    ofLittleEndian (littleEndian count n) = n := by
  induction count generalizing n with
  | zero =>
      rw [Nat.pow_zero] at h
      rw [littleEndian, ofLittleEndian]
      omega
  | succ count ih =>
      have hhigh : n / 256 < 256 ^ count := by
        rw [Nat.div_lt_iff_lt_mul (by decide), ← Nat.pow_succ]
        exact h
      rw [littleEndian, ofLittleEndian, ih hhigh, UInt8.toNat_ofNat']
      omega

end Bytes

end WasmAssembly
