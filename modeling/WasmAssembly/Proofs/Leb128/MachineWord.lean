import WasmAssembly.Proofs.Leb128.Checked

/-!
# `WasmAssembly.Proofs.Leb128.MachineWord`: arithmetic that can trap

On words of a fixed size `x + y` wraps around, and a shift by more bits than the word has gives
zero. A machine that checks its arithmetic stops there instead. The operations of this module are
those of such a machine: each has a result exactly if it neither overflows nor shifts too far, and a
computation of several has one exactly if none of them traps.

A width computes its bounds on words of 128 bits, which its largest values fill completely.
`Width.maxUnsigned?_eq` and `Width.signedRange?_eq` say that this traps at no width and gives the
bounds as numbers.
-/

set_option autoImplicit false

namespace WasmAssembly.MachineWord

variable {n : Nat} {x y : BitVec n} {amount : BitVec 32}

/-! ### Operations -/

/-- The sum of two words, if the word can hold it. -/
def add? (x y : BitVec n) : Option (BitVec n) :=
  if x.uaddOverflow y then none else some (x + y)

/-- The difference of two words, if it is not below zero. -/
def sub? (x y : BitVec n) : Option (BitVec n) :=
  if x.usubOverflow y then none else some (x - y)

/-- The product of two words, if the word can hold it. -/
def mul? (x y : BitVec n) : Option (BitVec n) :=
  if x.umulOverflow y then none else some (x * y)

/-- The word shifted up, if by less than the number of its bits. -/
def shiftLeft? (x : BitVec n) (amount : BitVec 32) : Option (BitVec n) :=
  if amount.toNat < n then some (x <<< amount.toNat) else none

/-- The word shifted down, if by less than the number of its bits. -/
def shiftRight? (x : BitVec n) (amount : BitVec 32) : Option (BitVec n) :=
  if amount.toNat < n then some (x >>> amount.toNat) else none

/-- The word with its sign turned around, if the word can hold it in two's complement. -/
def negSigned? (x : BitVec n) : Option (BitVec n) :=
  if x.negOverflow then none else some (-x)

/-- The difference of two words in two's complement, if the word can hold it. -/
def subSigned? (x y : BitVec n) : Option (BitVec n) :=
  if x.ssubOverflow y then none else some (x - y)

/-! ### Results -/

/-- A sum that fits the word does not trap, and is the sum of the numbers. -/
theorem add?_of_lt (h : x.toNat + y.toNat < 2 ^ n) :
    ∃ z, add? x y = some z ∧ z.toNat = x.toNat + y.toNat := by
  have hfits : ¬x.uaddOverflow y = true := by
    rw [BitVec.uaddOverflow, decide_eq_true_eq]
    omega
  exact ⟨x + y, if_neg hfits, BitVec.toNat_add_of_not_uaddOverflow hfits⟩

/-- The difference to a number that is not larger does not trap, and is the difference of the
numbers. -/
theorem sub?_of_le (h : y.toNat ≤ x.toNat) :
    ∃ z, sub? x y = some z ∧ z.toNat = x.toNat - y.toNat := by
  have hfits : ¬x.usubOverflow y = true := by
    rw [BitVec.usubOverflow, decide_eq_true_eq]
    omega
  exact ⟨x - y, if_neg hfits, BitVec.toNat_sub_of_not_usubOverflow hfits⟩

/-- A product that fits the word does not trap, and is the product of the numbers. -/
theorem mul?_of_lt (h : x.toNat * y.toNat < 2 ^ n) :
    ∃ z, mul? x y = some z ∧ z.toNat = x.toNat * y.toNat := by
  have hfits : ¬x.umulOverflow y = true := by
    rw [BitVec.umulOverflow, decide_eq_true_eq]
    omega
  exact ⟨x * y, if_neg hfits, BitVec.toNat_mul_of_not_umulOverflow hfits⟩

/-- A shift to the left by less than the width does not trap. -/
theorem shiftLeft?_of_lt (h : amount.toNat < n) :
    shiftLeft? x amount = some (x <<< amount.toNat) :=
  if_pos h

/-- A power of two that a word can hold is the number one shifted up. -/
theorem shiftLeft?_one (h : amount.toNat < n) :
    shiftLeft? 1#n amount = some (BitVec.twoPow n amount.toNat) :=
  shiftLeft?_of_lt h

/-- A shift to the right by less than the width does not trap. -/
theorem shiftRight?_of_lt (h : amount.toNat < n) :
    shiftRight? x amount = some (x >>> amount.toNat) :=
  if_pos h

/-- Below the sign, a power of two is the same number in two's complement. -/
theorem toInt_twoPow_of_lt {k : Nat} (h : k < n - 1) : (BitVec.twoPow n k).toInt = 2 ^ k := by
  rw [BitVec.toInt_twoPow, if_neg (by omega), if_neg (by omega)]

/-- To negate any integer but the smallest one does not trap. -/
theorem negSigned?_of_ne (h : x.toInt ≠ -2 ^ (n - 1)) :
    ∃ z, negSigned? x = some z ∧ z.toInt = -x.toInt := by
  have hfits : ¬x.negOverflow = true := by
    rwa [BitVec.negOverflow, beq_iff_eq]
  exact ⟨-x, if_neg hfits, BitVec.toInt_neg_of_not_negOverflow hfits⟩

/-- A difference that fits the word does not trap, and is the difference of the integers. -/
theorem subSigned?_of_range (hlow : -2 ^ (n - 1) ≤ x.toInt - y.toInt)
    (hhigh : x.toInt - y.toInt < 2 ^ (n - 1)) :
    ∃ z, subSigned? x y = some z ∧ z.toInt = x.toInt - y.toInt := by
  have hfits : ¬x.ssubOverflow y = true := by
    rw [BitVec.ssubOverflow, Bool.or_eq_true, decide_eq_true_eq, decide_eq_true_eq]
    omega
  exact ⟨x - y, if_neg hfits, BitVec.toInt_sub_of_not_ssubOverflow hfits⟩

end WasmAssembly.MachineWord

namespace WasmAssembly.Leb128.Width

open MachineWord

/-! ### The bounds of a width -/

/-- The bit count as a machine has it. -/
def bitsWord (w : Width) : BitVec 32 :=
  BitVec.ofNat 32 w.bits

/-- The bits of a width as a word are their number. -/
@[simp]
theorem toNat_bitsWord (w : Width) : w.bitsWord.toNat = w.bits := by
  have hbits : w.bits ≤ 128 := w.bits_le
  rw [bitsWord, BitVec.toNat_ofNat]
  omega

/-- The largest value, read as an unsigned number. At the full width no shift can give it. -/
def maxUnsigned? (w : Width) : Option Word :=
  if w.bits = maxBits then some (BitVec.allOnes maxBits)
  else do
    let bound ← shiftLeft? (BitVec.ofNat maxBits 1) w.bitsWord
    sub? bound (BitVec.ofNat maxBits 1)

/-- The smallest and the largest value, read as two's complement. -/
def signedRange? (w : Width) : Option (Word × Word) :=
  if w.bits = maxBits then some (BitVec.intMin maxBits, BitVec.intMax maxBits)
  else do
    let half ← shiftLeft? (BitVec.ofNat maxBits 1) (← sub? w.bitsWord 1#32)
    return (← negSigned? half, ← subSigned? half (BitVec.ofNat maxBits 1))

/-- The largest number of a width is computed at every width. -/
theorem maxUnsigned?_eq (w : Width) :
    w.maxUnsigned?.map BitVec.toNat = some w.maxUnsigned := by
  rw [maxUnsigned_eq]
  by_cases hfull : w.bits = maxBits
  · rw [maxUnsigned?, if_pos hfull, Option.map_some, BitVec.toNat_allOnes, hfull]
  · have hlt : w.bitsWord.toNat < maxBits := by
      rw [toNat_bitsWord]
      exact Nat.lt_of_le_of_ne w.bits_le hfull
    have hbound : (BitVec.twoPow maxBits w.bitsWord.toNat).toNat = 2 ^ w.bits := by
      rw [BitVec.toNat_twoPow_of_lt hlt, toNat_bitsWord]
    obtain ⟨max, hmax, hvalue⟩ := sub?_of_le (x := BitVec.twoPow maxBits w.bitsWord.toNat)
      (y := BitVec.ofNat maxBits 1) (by rw [hbound]; exact Nat.one_le_two_pow)
    rw [maxUnsigned?, if_neg hfull, shiftLeft?_one hlt, Option.bind_eq_bind, Option.bind_some, hmax,
      Option.map_some, hvalue, hbound]
    rfl

/-- Both ends of the range of a width are computed at every width. -/
theorem signedRange?_eq (w : Width) :
    w.signedRange?.map (Prod.map BitVec.toInt BitVec.toInt) = some (w.minSigned, w.maxSigned) := by
  rw [minSigned_eq, maxSigned_eq]
  by_cases hfull : w.bits = maxBits
  · rw [signedRange?, if_pos hfull, hfull]
    decide
  · obtain ⟨top, htop, hposition⟩ := sub?_of_le (x := w.bitsWord) (y := 1#32)
      (by rw [toNat_bitsWord]; exact w.one_le_bits)
    have hroom : top.toNat < maxBits - 1 := by
      have hlt : w.bits < maxBits := Nat.lt_of_le_of_ne w.bits_le hfull
      rw [hposition, toNat_bitsWord]
      exact Nat.sub_lt_sub_right w.one_le_bits hlt
    -- The word holds the power of two as a positive number, so neither operation overflows.
    have hhalf := toInt_twoPow_of_lt hroom
    have hpos : (0 : Int) < 2 ^ top.toNat := Int.pow_pos (by decide)
    have hle : (2 : Int) ^ top.toNat ≤ 2 ^ (maxBits - 1) :=
      pow_le_pow_right₀ (by decide) (Nat.le_of_lt hroom)
    have hone : (BitVec.ofNat maxBits 1).toInt = 1 := by decide
    obtain ⟨low, hlow, hlowValue⟩ := negSigned?_of_ne (x := BitVec.twoPow maxBits top.toNat)
      (by omega)
    obtain ⟨high, hhigh, hhighValue⟩ := subSigned?_of_range
      (x := BitVec.twoPow maxBits top.toNat) (y := BitVec.ofNat maxBits 1) (by omega) (by omega)
    have hrange : w.signedRange? = some (low, high) := by
      rw [signedRange?, if_neg hfull]
      simp only [htop, shiftLeft?_one (Nat.lt_of_lt_of_le hroom (Nat.sub_le _ _)), hlow, hhigh,
        Option.bind_eq_bind, Option.bind_some, Option.pure_def]
    rw [hrange, Option.map_some, Prod.map_apply, hlowValue, hhighValue, hhalf, hone, hposition,
      toNat_bitsWord]
    push_cast
    rfl

end WasmAssembly.Leb128.Width
