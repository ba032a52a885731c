import WasmAssembly.Proofs.Leb128.Groups

/-!
# `WasmAssembly.Proofs.Leb128.Decoding`: what the decoders accept

The decoders never compare a value with the range of its width. They stop at the first byte without
continuation bit, look at the bits of that one byte that the width cuts off, and give up earlier if
the bytes run out or are too many. What they read they put together in a word of 128 bits, which the
last group may overrun. This module says what comes of that, for all bytes at all widths:

* `decodeUnsigned_classifies`, `decodeSigned_classifies`: an encoding that ends within the bytes
  that the width allows is accepted exactly if its value is in the range; one that does not end
  there is too long or cut off; and no byte behind the last one counts.
* `decodeUnsigned_unsigned`, `decodeSigned_signed`: what was written for an integer of the width
  reads back, whatever bytes follow.

`classify` states the rule once, with the value of an encoding and the range as parameters. Both
decoders are loops of one kind, `IsGroupLoop`, and `IsGroupLoop.eq_classify` says that such a loop
follows the rule. Its invariant is that the word holds the sum of the groups read so far (`wordOf`).
What is left for each decoder is its last group: that the test of this group is the test of the
range (`wholeGroup_iff`, `signFits_iff`), and that the word then holds the value (`toNat_wordOf`,
`extendSign_wordOf`).
-/

set_option autoImplicit false

namespace WasmAssembly.Leb128

/-! ### The rule -/

/-- What reading the integer at the front of some bytes comes to, if `value` tells the integer from
the bytes of its encoding and `fits` tells whether it is in the range of the width. -/
def classify {α : Type} (w : Width) (value : Bytes → α) (fits : α → Prop) [DecidablePred fits]
    (bytes : Bytes) : Except Error (α × Nat) :=
  match lastPosition? bytes with
  | some k =>
    if k < w.maxBytes then
      if fits (value (bytes.take (k + 1))) then .ok (value (bytes.take (k + 1)), k + 1)
      else .error (.excessBits w)
    else .error (.overlong w w.maxBytes)
  | none =>
    if w.maxBytes ≤ bytes.length then .error (.overlong w w.maxBytes)
    else .error (.unexpectedEnd bytes.length)

section Classify

variable {α : Type} {w : Width} {value : Bytes → α} {fits : α → Prop} [DecidablePred fits]
  {bytes : Bytes} {k : Nat}

/-- An encoding that ends in time is judged by its value. -/
theorem classify_of_lt (hlast : lastPosition? bytes = some k) (hk : k < w.maxBytes) :
    classify w value fits bytes
      = if fits (value (bytes.take (k + 1))) then .ok (value (bytes.take (k + 1)), k + 1)
        else .error (.excessBits w) := by
  rw [classify, hlast]
  exact if_pos hk

/-- An encoding that does not end in time is too long, or the bytes are too few. -/
theorem classify_of_not_lt (h : ∀ k, lastPosition? bytes = some k → ¬k < w.maxBytes) :
    classify w value fits bytes
      = if w.maxBytes ≤ bytes.length then .error (.overlong w w.maxBytes)
        else .error (.unexpectedEnd bytes.length) := by
  rw [classify]
  cases hlast : lastPosition? bytes with
  | none => rfl
  | some k =>
      have hk := h k hlast
      have hlength := (isEncoding_take hlast).2
      rw [if_pos (by omega)]
      exact if_neg hk

/-- What an encoding comes to does not depend on the bytes behind it. -/
theorem classify_append {e : Bytes} (h : IsEncoding e) (rest : Bytes) :
    classify w value fits (e ++ rest)
      = if e.length ≤ w.maxBytes then
          if fits (value e) then .ok (value e, e.length) else .error (.excessBits w)
        else .error (.overlong w w.maxBytes) := by
  obtain ⟨k, hk⟩ := Nat.exists_eq_add_one.mpr (List.length_pos_iff.mpr h.ne_nil)
  have hlast := h.lastPosition?_append rest
  rw [hk, Nat.add_sub_cancel] at hlast
  have htake : (e ++ rest).take (k + 1) = e := List.take_left' hk
  rw [classify, hlast]
  simp only [htake, hk, Nat.lt_iff_add_one_le]

/-- Bytes behind the encoding do not count. -/
theorem classify_take_append (hlast : lastPosition? bytes = some k) (tail : Bytes) :
    classify w value fits (bytes.take (k + 1) ++ tail) = classify w value fits bytes := by
  obtain ⟨he, -⟩ := isEncoding_take hlast
  calc classify w value fits (bytes.take (k + 1) ++ tail)
      = classify w value fits (bytes.take (k + 1) ++ bytes.drop (k + 1)) := by
        rw [classify_append he, classify_append he]
    _ = classify w value fits bytes := by rw [List.take_append_drop]

/-- What is accepted is an encoding of a value in the range. -/
theorem classify_eq_ok {v : α} {n : Nat} (h : classify w value fits bytes = .ok (v, n)) :
    IsEncoding (bytes.take n) ∧ n ≤ bytes.length ∧ v = value (bytes.take n) ∧ fits v := by
  rw [classify] at h
  cases hlast : lastPosition? bytes with
  | none =>
      rw [hlast] at h
      simp only at h
      split at h <;> cases h
  | some k =>
      rw [hlast] at h
      simp only at h
      split at h
      · split at h
        · next hfits =>
            cases h
            obtain ⟨he, hlength⟩ := isEncoding_take hlast
            exact ⟨he, hlength, rfl, hfits⟩
        · cases h
      · cases h

end Classify

/-! ### Words -/

/-- The word that holds the groups of some bytes. -/
def wordOf (bytes : Bytes) : Word :=
  BitVec.ofNat maxBits (groupSum bytes)

/-- The next group goes above those that are in the word already. -/
theorem put_wordOf (front : Bytes) (b : UInt8) :
    (wordOf front).put (7 * front.length) (b.toNat % 128) = wordOf (front ++ [b]) := by
  have hshift (group shift : Nat) : BitVec.ofNat maxBits (2 ^ shift * group)
      = BitVec.ofNat maxBits group <<< shift := by
    apply BitVec.eq_of_toNat_eq
    rw [BitVec.toNat_shiftLeft, BitVec.toNat_ofNat, BitVec.toNat_ofNat, Nat.shiftLeft_eq,
      Nat.mod_mul_mod, Nat.mul_comm]
  rw [Word.put, wordOf, wordOf, groupSum_concat, Nat.add_comm,
    Nat.two_pow_add_eq_or_of_lt (groupSum_lt front), Nat.or_comm, BitVec.ofNat_or, hshift]

/-- The word that holds the groups is their number, as long as it fits the widest word. -/
theorem toNat_wordOf {bytes : Bytes} (h : groupSum bytes < 2 ^ maxBits) :
    (wordOf bytes).toNat = groupSum bytes := by
  rw [wordOf, BitVec.toNat_ofNat, Nat.mod_eq_of_lt h]

/-- Setting all bits of a word from one on that is above its number takes away the power of two of
that bit. -/
theorem or_allOnes_shiftLeft {n filled : Nat} (h : n < 2 ^ filled) :
    BitVec.ofNat maxBits n ||| BitVec.allOnes maxBits <<< filled
      = BitVec.ofInt maxBits (n - 2 ^ filled) := by
  have hdisjoint : BitVec.ofNat maxBits n &&& BitVec.allOnes maxBits <<< filled
      = BitVec.ofNat maxBits 0 := by
    apply BitVec.eq_of_getLsbD_eq
    intro i _
    by_cases hi : i < filled
    · simp [hi]
    · have hpow : 2 ^ filled ≤ 2 ^ i := Nat.pow_le_pow_right (by decide) (Nat.not_lt.mp hi)
      have hclear : n.testBit i = false := Nat.testBit_lt_two_pow (Nat.lt_of_lt_of_le h hpow)
      simp [BitVec.getLsbD_ofNat, hclear]
  have hones : BitVec.allOnes maxBits <<< filled = BitVec.ofInt maxBits (-(2 ^ filled : Nat)) := by
    have hpow : BitVec.ofNat maxBits (2 ^ filled) = BitVec.twoPow maxBits filled := by
      apply BitVec.eq_of_toNat_eq
      rw [BitVec.toNat_ofNat, BitVec.toNat_twoPow]
    rw [BitVec.shiftLeft_eq_mul_twoPow, ← BitVec.neg_one_eq_allOnes, BitVec.neg_mul,
      BitVec.one_mul, BitVec.ofInt_neg, BitVec.ofInt_natCast, hpow]
  rw [← BitVec.add_eq_or_of_and_eq_zero _ _ hdisjoint, hones, Int.sub_eq_add_neg,
    BitVec.ofInt_add, BitVec.ofInt_natCast, Nat.cast_pow, Nat.cast_ofNat]

/-- A power of two above a word does not count in it. -/
theorem ofInt_sub_two_pow {n filled : Nat} (h : maxBits ≤ filled) :
    BitVec.ofInt maxBits (n - 2 ^ filled) = BitVec.ofNat maxBits n := by
  have hzero : BitVec.ofInt maxBits ((2 ^ filled : Nat) : Int) = BitVec.ofNat maxBits 0 := by
    rw [BitVec.ofInt_natCast]
    apply BitVec.eq_of_toNat_eq
    rw [BitVec.toNat_ofNat, BitVec.toNat_ofNat, Nat.zero_mod]
    exact Nat.mod_eq_zero_of_dvd (Nat.pow_dvd_pow 2 h)
  rw [Nat.cast_pow, Nat.cast_ofNat] at hzero
  rw [Int.sub_eq_add_neg, BitVec.ofInt_add, BitVec.ofInt_neg, hzero, BitVec.neg_zero,
    BitVec.add_zero, BitVec.ofInt_natCast]

/-- Once the sign is extended, the word holds the integer. Where the last group reaches the end of
the word, or overruns it, that is so without extending anything. -/
theorem extendSign_wordOf (front : Bytes) {last : UInt8} (hlast : last.toNat < 128) :
    (wordOf (front ++ [last])).extendSign (7 * front.length + 7) (last.toNat % 128)
      = BitVec.ofInt maxBits (signedSum (front ++ [last])) := by
  have hlt := groupSum_lt (front ++ [last])
  have hlength : 7 * (front ++ [last]).length = 7 * front.length + 7 := by
    rw [List.length_append, List.length_singleton, Nat.mul_add]
  rw [signedSum, List.getLastD_concat, Nat.mod_eq_of_lt hlast, wordOf, Word.extendSign]
  rw [hlength] at hlt ⊢
  by_cases hsign : last.toNat.testBit 6
  · rw [if_pos hsign]
    by_cases hroom : 7 * front.length + 7 < maxBits
    · rw [if_pos ⟨hroom, hsign⟩]
      exact or_allOnes_shiftLeft hlt
    · rw [if_neg fun h => hroom h.1]
      exact (ofInt_sub_two_pow (Nat.not_lt.mp hroom)).symm
  · rw [if_neg hsign, if_neg fun h => hsign h.2, Int.sub_zero, BitVec.ofInt_natCast]

/-! ### Loops over groups -/

/-- A loop that puts groups into a word until one without continuation bit, as the decoders have
it. `value` is what it reads from the bytes of an encoding and `fits` is the range of the width. -/
structure IsGroupLoop {α : Type} (w : Width) (value : Bytes → α) (fits : α → Prop)
    [DecidablePred fits] (loop : Nat → Word → Bytes → Except Error (α × Nat)) : Prop where
  /-- The bytes end before the encoding does. -/
  ends : ∀ read word, loop read word [] = .error (.unexpectedEnd read)
  /-- The width allows no byte behind this one. -/
  overlong : ∀ read word b rest, 128 ≤ b.toNat → read + 1 = w.maxBytes →
    loop read word (b :: rest) = .error (.overlong w w.maxBytes)
  /-- The group is put into the word, whatever it is. -/
  continued : ∀ read word b rest, 128 ≤ b.toNat → read + 1 < w.maxBytes →
    loop read word (b :: rest) = loop (read + 1) (word.put (7 * read) (b.toNat % 128)) rest
  /-- The encoding ends, and its value decides. -/
  last : ∀ front b rest, b.toNat < 128 → front.length < w.maxBytes →
    loop front.length (wordOf front) (b :: rest)
      = if fits (value (front ++ [b])) then .ok (value (front ++ [b]), (front ++ [b]).length)
        else .error (.excessBits w)

namespace IsGroupLoop

variable {α : Type} {w : Width} {value : Bytes → α} {fits : α → Prop} [DecidablePred fits]
  {loop : Nat → Word → Bytes → Except Error (α × Nat)} {front : Bytes}

/-- The loop takes a byte that others follow into its word. -/
theorem step (h : IsGroupLoop w value fits loop) {b : UInt8} (hb : 128 ≤ b.toNat)
    (hmore : (front ++ [b]).length < w.maxBytes) (rest : Bytes) :
    loop front.length (wordOf front) (b :: rest)
      = loop (front ++ [b]).length (wordOf (front ++ [b])) rest := by
  rw [List.length_append, List.length_singleton] at hmore ⊢
  rw [h.continued _ _ _ _ hb hmore, put_wordOf]

/-- The rest of an encoding, with the bytes in front of it in the word. -/
theorem run_encoding (h : IsGroupLoop w value fits loop) {e : Bytes} (he : IsEncoding e)
    (hfront : front.length < w.maxBytes) (rest : Bytes) :
    loop front.length (wordOf front) (e ++ rest)
      = if (front ++ e).length ≤ w.maxBytes then
          if fits (value (front ++ e)) then .ok (value (front ++ e), (front ++ e).length)
          else .error (.excessBits w)
        else .error (.overlong w w.maxBytes) := by
  induction he generalizing front with
  | @last b hb =>
      have hroom : (front ++ [b]).length ≤ w.maxBytes := by
        rw [List.length_append, List.length_singleton]
        exact hfront
      rw [if_pos hroom]
      exact h.last front b rest hb hfront
  | @cons b e hb he ih =>
      rw [List.cons_append, List.append_cons front b e]
      by_cases hmore : (front ++ [b]).length < w.maxBytes
      · rw [h.step hb hmore]
        exact ih hmore
      · -- Bytes follow this one, but there is no room for them.
        have hpos := List.length_pos_iff.mpr he.ne_nil
        have hfull : ¬(front ++ [b] ++ e).length ≤ w.maxBytes := by
          rw [List.length_append]
          omega
        rw [List.length_append, List.length_singleton] at hmore
        rw [if_neg hfull, h.overlong _ _ _ _ hb (by omega)]

/-- Bytes among which no encoding ends. -/
theorem run_continued (h : IsGroupLoop w value fits loop) {bytes : Bytes}
    (hbytes : AllContinued bytes) (hfront : front.length < w.maxBytes) :
    loop front.length (wordOf front) bytes
      = if w.maxBytes ≤ (front ++ bytes).length then .error (.overlong w w.maxBytes)
        else .error (.unexpectedEnd (front ++ bytes).length) := by
  induction bytes generalizing front with
  | nil => rw [h.ends, List.append_nil, if_neg (Nat.not_le.mpr hfront)]
  | cons b bytes ih =>
      have hb := hbytes b List.mem_cons_self
      rw [List.append_cons front b bytes]
      by_cases hmore : (front ++ [b]).length < w.maxBytes
      · rw [h.step hb hmore]
        exact ih (fun c hc => hbytes c (List.mem_cons_of_mem b hc)) hmore
      · have hfull : w.maxBytes ≤ (front ++ [b] ++ bytes).length := by
          rw [List.length_append]
          omega
        rw [List.length_append, List.length_singleton] at hmore
        rw [if_pos hfull, h.overlong _ _ _ _ hb (by omega)]

/-- A loop over groups that starts with an empty word follows the rule. -/
theorem eq_classify (h : IsGroupLoop w value fits loop) (bytes : Bytes) :
    loop 0 0 bytes = classify w value fits bytes := by
  have hstart : ([] : Bytes).length < w.maxBytes := w.one_le_maxBytes
  cases hlast : lastPosition? bytes with
  | none =>
      rw [classify_of_not_lt (by simp [hlast])]
      exact h.run_continued (lastPosition?_eq_none_iff.mp hlast) hstart
  | some k =>
      obtain ⟨he, -⟩ := isEncoding_take hlast
      rw [← List.take_append_drop (k + 1) bytes, classify_append he]
      exact h.run_encoding he hstart (bytes.drop (k + 1))

end IsGroupLoop

/-- The bytes that a width allows are those in front of which bits are left to fill. -/
theorem Width.lt_maxBytes_iff (w : Width) (k : Nat) : k < w.maxBytes ↔ 7 * k < w.bits := by
  rw [Width.maxBytes]
  omega

/-! ### The unsigned decoder -/

/-- A number with low bits below a power of two is below a multiple of it exactly if what stands
above these bits is below the factor. -/
theorem add_mul_lt_mul_iff {low m high bound : Nat} (hlow : low < m) :
    low + m * high < m * bound ↔ high < bound := by
  have hpos : 0 < m := by omega
  rw [Nat.mul_comm m bound, ← Nat.div_lt_iff_lt_mul hpos, Nat.add_mul_div_left _ _ hpos,
    Nat.div_eq_of_lt hlow, Nat.zero_add]

/-- The test of a group says that no bit of it is above the width. -/
theorem wholeGroup_iff {remaining group : Nat} (hgroup : group < 128) :
    remaining < 7 ∧ group >>> remaining ≠ 0 ↔ ¬group < 2 ^ remaining := by
  rw [Nat.shiftRight_eq_div_pow, Ne, Nat.div_eq_zero_iff_lt (Nat.two_pow_pos remaining),
    and_iff_right_iff_imp]
  intro hge
  by_contra hwhole
  have := Nat.pow_le_pow_right (show 0 < 2 by decide) (Nat.not_lt.mp hwhole)
  omega

/-- A number is in the range of a width exactly if its last group has no bit above the width. -/
theorem groupSum_concat_lt_iff {bits : Nat} {front : Bytes} (hbits : 7 * front.length < bits)
    (b : UInt8) :
    groupSum (front ++ [b]) < 2 ^ bits ↔ b.toNat % 128 < 2 ^ (bits - 7 * front.length) := by
  have hpow : 2 ^ bits = 2 ^ (7 * front.length) * 2 ^ (bits - 7 * front.length) := by
    rw [← Nat.pow_add, Nat.add_sub_cancel' (Nat.le_of_lt hbits)]
  rw [groupSum_concat, hpow, add_mul_lt_mul_iff (groupSum_lt front)]

/-- The loop of the unsigned decoder goes over groups that add up to a number, which the width must
hold. -/
theorem isGroupLoop_decodeUnsigned (w : Width) :
    IsGroupLoop w groupSum (· < 2 ^ w.bits) (decodeUnsigned.groups w) where
  ends read word := by rw [decodeUnsigned.groups]
  overlong read word b rest hb hend := by
    rw [decodeUnsigned.groups]
    exact if_pos ⟨Nat.not_lt.mpr hb, hend⟩
  continued read word b rest hb hmore := by
    -- There are bits left for more groups, so all of this one are within the width.
    have hwhole : ¬w.bits - 7 * read < 7 := by
      have := (w.lt_maxBytes_iff (read + 1)).mp hmore
      omega
    rw [decodeUnsigned.groups]
    simp only [Nat.not_lt.mpr hb, hwhole, Nat.ne_of_lt hmore, and_false, false_and, if_false]
  last front b rest hb hroom := by
    have hgroup : b.toNat % 128 < 128 := Nat.mod_lt _ (by decide)
    have hrange := groupSum_concat_lt_iff ((w.lt_maxBytes_iff front.length).mp hroom) b
    rw [decodeUnsigned.groups]
    simp only [hb, not_true_eq_false, false_and, if_false, if_true, put_wordOf,
      wholeGroup_iff hgroup, ← hrange]
    by_cases hfits : groupSum (front ++ [b]) < 2 ^ w.bits
    · have hword : groupSum (front ++ [b]) < 2 ^ maxBits :=
        Nat.lt_of_lt_of_le hfits (Nat.pow_le_pow_right (by decide) w.bits_le)
      rw [if_neg (not_not.mpr hfits), if_pos hfits, toNat_wordOf hword, List.length_append,
        List.length_singleton]
    · rw [if_pos hfits, if_neg hfits]

/-- The unsigned decoder follows the rule. -/
theorem decodeUnsigned_eq_classify {bits : Nat} (hbits : 1 ≤ bits ∧ bits ≤ maxBits)
    (bytes : Bytes) :
    decodeUnsigned bits bytes
      = classify ⟨bits, false, hbits.1, hbits.2⟩ groupSum (· < 2 ^ bits) bytes := by
  rw [decodeUnsigned, Width.make_eq_ok false hbits]
  exact (isGroupLoop_decodeUnsigned ⟨bits, false, hbits.1, hbits.2⟩).eq_classify bytes

/-! ### The signed decoder -/

/-- The same for integers and both ends of a range. -/
theorem le_add_mul_and_lt_iff {low m : Nat} (hlow : low < m) (high bound : Int) :
    -(m * bound) ≤ low + m * high ∧ low + m * high < m * bound ↔
      -bound ≤ high ∧ high < bound := by
  have hpos : (0 : Int) < m := by omega
  have hdiv : ((low : Int) + m * high) / m = high := by
    rw [Int.add_mul_ediv_left _ _ (Int.ne_of_gt hpos), Int.ediv_eq_zero_of_lt (by omega) (by omega),
      Int.zero_add]
  rw [Int.mul_comm (m : Int) bound, ← Int.neg_mul, ← Int.le_ediv_iff_mul_le hpos,
    ← Int.ediv_lt_iff_lt_mul hpos, hdiv]

/-- The test of the last group says that it tells an integer of the bits that are left. -/
theorem signFits_iff {remaining group : Nat} (hpos : 1 ≤ remaining) (hgroup : group < 128) :
    signFits remaining group ↔
      -(2 ^ (remaining - 1) : Int) ≤ signedGroup group ∧
        signedGroup group < 2 ^ (remaining - 1) := by
  by_cases hcut : remaining < 7
  · simp only [signFits, signedGroup, Nat.shiftRight_eq_div_pow, hcut, true_implies]
    -- The width is one of six, and for each of them the powers are numbers.
    obtain rfl | rfl | rfl | rfl | rfl | rfl : remaining = 1 ∨ remaining = 2 ∨ remaining = 3 ∨
        remaining = 4 ∨ remaining = 5 ∨ remaining = 6 := by omega
    all_goals
      simp only [Nat.add_one_sub_one, Nat.reducePow, Int.reducePow]
      omega
  · -- A whole group tells an integer of seven bits, and no fewer are left.
    have hwide : (2 : Int) ^ 6 ≤ 2 ^ (remaining - 1) :=
      pow_le_pow_right₀ (by decide) (by omega)
    have hvacuous : signFits remaining group := fun h => absurd h hcut
    have hrange : -64 ≤ signedGroup group ∧ signedGroup group < 64 := by
      unfold signedGroup
      split <;> omega
    refine iff_of_true hvacuous ⟨?_, ?_⟩ <;> omega

/-- An integer is in the range of a width exactly if its last group repeats the sign in all bits
above the width. -/
theorem signedSum_concat_fits_iff {bits : Nat} {front : Bytes} (hbits : 7 * front.length < bits)
    {last : UInt8} (hlast : last.toNat < 128) :
    -(2 ^ (bits - 1)) ≤ signedSum (front ++ [last]) ∧
        signedSum (front ++ [last]) ≤ 2 ^ (bits - 1) - 1 ↔
      signFits (bits - 7 * front.length) (last.toNat % 128) := by
  have hpow : (2 : Int) ^ (bits - 1)
      = (2 ^ (7 * front.length) : Nat) * 2 ^ (bits - 7 * front.length - 1) := by
    have hsplit : bits - 1 = 7 * front.length + (bits - 7 * front.length - 1) := by omega
    rw [Nat.cast_pow, Nat.cast_ofNat, ← pow_add, ← hsplit]
  have hscale := le_add_mul_and_lt_iff (groupSum_lt front) (signedGroup last.toNat)
    (2 ^ (bits - 7 * front.length - 1))
  rw [← hpow, Nat.cast_pow, Nat.cast_ofNat, ← signedSum_concat front hlast] at hscale
  rw [Int.le_sub_one_iff, hscale, Nat.mod_eq_of_lt hlast,
    signFits_iff (Nat.sub_pos_of_lt hbits) hlast]

/-- An integer in the range of a width is read back from a word. -/
theorem toInt_ofInt_of_fits {bits : Nat} (hbits : bits ≤ maxBits) {v : Int}
    (hlow : -(2 ^ (bits - 1)) ≤ v) (hhigh : v ≤ 2 ^ (bits - 1) - 1) :
    (BitVec.ofInt maxBits v).toInt = v := by
  have hpow : (2 : Int) ^ (bits - 1) ≤ 2 ^ (maxBits - 1) :=
    pow_le_pow_right₀ (by decide) (Nat.sub_le_sub_right hbits 1)
  exact BitVec.toInt_ofInt_eq_self (by decide) (by omega) (by omega)

/-- The loop of the signed decoder goes over groups that add up to an integer, which the width must
hold. -/
theorem isGroupLoop_decodeSigned (w : Width) :
    IsGroupLoop w signedSum (fun v => -(2 ^ (w.bits - 1)) ≤ v ∧ v ≤ 2 ^ (w.bits - 1) - 1)
      (decodeSigned.groups w) where
  ends read word := by rw [decodeSigned.groups]
  overlong read word b rest hb hend := by
    rw [decodeSigned.groups]
    exact if_pos ⟨Nat.not_lt.mpr hb, hend⟩
  continued read word b rest hb hmore := by
    rw [decodeSigned.groups]
    simp only [Nat.not_lt.mpr hb, Nat.ne_of_lt hmore, and_false, false_and, if_false]
  last front b rest hb hroom := by
    have hrange := signedSum_concat_fits_iff ((w.lt_maxBytes_iff front.length).mp hroom) hb
    rw [decodeSigned.groups]
    simp only [hb, not_true_eq_false, false_and, if_false, true_and, if_true, put_wordOf,
      extendSign_wordOf front hb, ← hrange]
    by_cases hfits : -(2 ^ (w.bits - 1)) ≤ signedSum (front ++ [b]) ∧
        signedSum (front ++ [b]) ≤ 2 ^ (w.bits - 1) - 1
    · rw [if_neg (not_not.mpr hfits), if_pos hfits, toInt_ofInt_of_fits w.bits_le hfits.1 hfits.2,
        List.length_append, List.length_singleton]
    · rw [if_pos hfits, if_neg hfits]

/-- The signed decoder follows the rule. -/
theorem decodeSigned_eq_classify {bits : Nat} (hbits : 1 ≤ bits ∧ bits ≤ maxBits) (bytes : Bytes) :
    decodeSigned bits bytes
      = classify ⟨bits, true, hbits.1, hbits.2⟩ signedSum
          (fun v => -(2 ^ (bits - 1)) ≤ v ∧ v ≤ 2 ^ (bits - 1) - 1) bytes := by
  rw [decodeSigned, Width.make_eq_ok true hbits]
  exact (isGroupLoop_decodeSigned ⟨bits, true, hbits.1, hbits.2⟩).eq_classify bytes

/-! ### Reading back -/

/-- At a width that it fits, a number reads back from its encoding with any bytes behind it. -/
theorem decodeUnsigned_unsigned {bits n : Nat} (hbits : 1 ≤ bits ∧ bits ≤ maxBits)
    (h : n < 2 ^ bits) (rest : Bytes) :
    decodeUnsigned bits (unsigned n ++ rest) = .ok (n, (unsigned n).length) := by
  let w : Width := ⟨bits, false, hbits.1, hbits.2⟩
  have hlength : (unsigned n).length ≤ w.maxBytes := length_unsigned_le_maxBytes h
  rw [decodeUnsigned_eq_classify hbits, classify_append (isEncoding_unsigned n), if_pos hlength,
    groupSum_unsigned, if_pos h]

/-- A number that does not fit a width does not read back from its encoding: it has too many bytes,
or too many bits in the last one. -/
theorem decodeUnsigned_unsigned_of_ge {bits n : Nat} (hbits : 1 ≤ bits ∧ bits ≤ maxBits)
    (h : 2 ^ bits ≤ n) (rest : Bytes) :
    decodeUnsigned bits (unsigned n ++ rest)
      = .error (if (unsigned n).length ≤ (bits + 6) / 7 then
          .excessBits ⟨bits, false, hbits.1, hbits.2⟩
        else .overlong ⟨bits, false, hbits.1, hbits.2⟩ ((bits + 6) / 7)) := by
  rw [decodeUnsigned_eq_classify hbits, classify_append (isEncoding_unsigned n),
    groupSum_unsigned, if_neg (Nat.not_lt.mpr h), ← apply_ite Except.error]
  rfl

/-- At a width that it fits, an integer reads back from its encoding with any bytes behind it. -/
theorem decodeSigned_signed {bits : Nat} {z : Int} (hbits : 1 ≤ bits ∧ bits ≤ maxBits)
    (hlow : -(2 ^ (bits - 1) : Nat) ≤ z) (hhigh : z < (2 ^ (bits - 1) : Nat)) (rest : Bytes) :
    decodeSigned bits (signed z ++ rest) = .ok (z, (signed z).length) := by
  let w : Width := ⟨bits, true, hbits.1, hbits.2⟩
  have hlength : (signed z).length ≤ w.maxBytes := length_signed_le_maxBytes hlow hhigh
  rw [Nat.cast_pow, Nat.cast_ofNat] at hlow hhigh
  rw [decodeSigned_eq_classify hbits, classify_append (isEncoding_signed z), if_pos hlength,
    signedSum_signed, if_pos ⟨hlow, Int.le_sub_one_of_lt hhigh⟩]

/-! ### What the decoders accept -/

/-- Unsigned decoding, for all bytes at all widths. Let `max` be the number of bytes that the width
allows and `k` the position of the first byte without continuation bit. If it is below `max`, the
sum of the groups up to it decides. If there is none below `max`, the encoding is too long or cut
off. What stands behind `k` never counts. -/
theorem decodeUnsigned_classifies {bits : Nat} (hbits : 1 ≤ bits ∧ bits ≤ 128) (bytes : Bytes) :
    let w : Width := ⟨bits, false, hbits.1, hbits.2⟩
    let max := (bits + 6) / 7
    (∀ k, lastPosition? bytes = some k → k < max →
      let v := groupSum (bytes.take (k + 1))
      decodeUnsigned bits bytes
        = if v < 2 ^ bits then .ok (v, k + 1) else .error (.excessBits w)) ∧
    ((∀ k, lastPosition? bytes = some k → ¬k < max) →
      decodeUnsigned bits bytes
        = if max ≤ bytes.length then .error (.overlong w max)
          else .error (.unexpectedEnd bytes.length)) ∧
    ∀ k, lastPosition? bytes = some k → ∀ tail,
      decodeUnsigned bits (bytes.take (k + 1) ++ tail) = decodeUnsigned bits bytes := by
  simp only [decodeUnsigned_eq_classify hbits]
  refine ⟨?_, ?_, ?_⟩
  · intro k hlast hk
    exact classify_of_lt hlast hk
  · intro hlate
    exact classify_of_not_lt hlate
  · intro k hlast tail
    exact classify_take_append hlast tail

/-- The largest number of 32 bits, a group above it, and continuation bits without an end. -/
theorem decodeUnsigned_classifies_cut :
    decodeUnsigned 32 [0xff, 0xff, 0xff, 0xff, 0x0f, 0x80] = .ok (4294967295, 5) ∧
    decodeUnsigned 32 [0xff, 0xff, 0xff, 0xff, 0x1f] = .error (.excessBits Width.u32) ∧
    decodeUnsigned 32 [0xff, 0xff, 0xff, 0xff, 0xff, 0x0f] = .error (.overlong Width.u32 5) := by
  have hin := (@decodeUnsigned_classifies 32 (by decide)
    [0xff, 0xff, 0xff, 0xff, 0x0f, 0x80]).1 4 (by decide) (by decide)
  have hout := (@decodeUnsigned_classifies 32 (by decide)
    [0xff, 0xff, 0xff, 0xff, 0x1f]).1 4 (by decide) (by decide)
  have hlate := (@decodeUnsigned_classifies 32 (by decide)
    [0xff, 0xff, 0xff, 0xff, 0xff, 0x0f]).2.1 (by decide)
  exact ⟨hin.trans (by decide), hout.trans (by decide), hlate.trans (by decide)⟩

/-- Signed decoding, for all bytes at all widths, in the same terms. The groups are taken in two's
complement, with bit 6 of the last byte as the sign, and the range is that of the width. -/
theorem decodeSigned_classifies {bits : Nat} (hbits : 1 ≤ bits ∧ bits ≤ 128) (bytes : Bytes) :
    let w : Width := ⟨bits, true, hbits.1, hbits.2⟩
    let max := (bits + 6) / 7
    (∀ k, lastPosition? bytes = some k → k < max →
      let v := signedSum (bytes.take (k + 1))
      decodeSigned bits bytes
        = if -(2 ^ (bits - 1)) ≤ v ∧ v ≤ 2 ^ (bits - 1) - 1 then .ok (v, k + 1)
          else .error (.excessBits w)) ∧
    ((∀ k, lastPosition? bytes = some k → ¬k < max) →
      decodeSigned bits bytes
        = if max ≤ bytes.length then .error (.overlong w max)
          else .error (.unexpectedEnd bytes.length)) ∧
    ∀ k, lastPosition? bytes = some k → ∀ tail,
      decodeSigned bits (bytes.take (k + 1) ++ tail) = decodeSigned bits bytes := by
  simp only [decodeSigned_eq_classify hbits]
  refine ⟨?_, ?_, ?_⟩
  · intro k hlast hk
    exact classify_of_lt hlast hk
  · intro hlate
    exact classify_of_not_lt hlate
  · intro k hlast tail
    exact classify_take_append hlast tail

/-- The smallest integer of 33 bits, the first one above the largest, and bytes that end early. -/
theorem decodeSigned_classifies_cut :
    decodeSigned 33 [0x80, 0x80, 0x80, 0x80, 0x70, 0x80] = .ok (-4294967296, 5) ∧
    decodeSigned 33 [0x80, 0x80, 0x80, 0x80, 0x10] = .error (.excessBits Width.s33) ∧
    decodeSigned 33 [0x80, 0x80] = .error (.unexpectedEnd 2) := by
  have hin := (@decodeSigned_classifies 33 (by decide)
    [0x80, 0x80, 0x80, 0x80, 0x70, 0x80]).1 4 (by decide) (by decide)
  have hout := (@decodeSigned_classifies 33 (by decide)
    [0x80, 0x80, 0x80, 0x80, 0x10]).1 4 (by decide) (by decide)
  have hlate := (@decodeSigned_classifies 33 (by decide)
    [0x80, 0x80]).2.1 (by decide)
  exact ⟨hin.trans (by decide), hout.trans (by decide), hlate.trans (by decide)⟩

-- The last group of the widest integers overruns the word, and the sign comes from its bit 1.
example : decodeSigned 128 (List.replicate 18 0x80 ++ [0x7e]) = .ok (-(2 ^ 127), 19) := by decide

end WasmAssembly.Leb128
