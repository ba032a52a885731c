import Mathlib.Data.Nat.Digits.Lemmas
import WasmAssembly.Proofs.Leb128.Signed

/-!
# `WasmAssembly.Proofs.Leb128.Groups`: what bytes encode

`IsEncoding` are the bytes that can be the encoding of an integer at all: each but the last one says
that another one follows. Where the encoding at the front of some bytes ends can therefore be told
without a width (`lastPosition?`), and so can what it encodes. That is a sum over its groups, each
with the weight of its position: `groupSum` for numbers, and `signedSum`, which takes bit 6 of the
last group as the sign, for integers.

What is written for an integer is an encoding (`isEncoding_unsigned`, `isEncoding_signed`) that sums
up to it (`groupSum_unsigned`, `signedSum_signed`).
-/

set_option autoImplicit false

namespace WasmAssembly.Leb128

/-! ### Where an encoding ends -/

/-- The bytes of one encoding: the continuation bit is set in all but the last one. -/
inductive IsEncoding : Bytes → Prop where
  | last {b : UInt8} (hb : b.toNat < 128) : IsEncoding [b]
  | cons {b : UInt8} {e : Bytes} (hb : 128 ≤ b.toNat) (he : IsEncoding e) : IsEncoding (b :: e)

/-- Each of the bytes says that another one follows. -/
def AllContinued (bytes : Bytes) : Prop :=
  ∀ b ∈ bytes, 128 ≤ b.toNat

/-- The position of the first byte without continuation bit. -/
def lastPosition? (bytes : Bytes) : Option Nat :=
  bytes.findIdx? (·.toNat < 128)

/-- The last group is the first byte, or it is found behind it. -/
theorem lastPosition?_cons (b : UInt8) (bytes : Bytes) :
    lastPosition? (b :: bytes)
      = if b.toNat < 128 then some 0 else (lastPosition? bytes).map (· + 1) := by
  simp only [lastPosition?, List.findIdx?_cons, decide_eq_true_eq]

/-- There is no last group if every byte says that another one follows. -/
theorem lastPosition?_eq_none_iff {bytes : Bytes} :
    lastPosition? bytes = none ↔ AllContinued bytes := by
  simp only [lastPosition?, List.findIdx?_eq_none_iff, decide_eq_false_iff_not, Nat.not_lt,
    AllContinued]

namespace IsEncoding

variable {e : Bytes}

/-- An encoding has a byte. -/
theorem ne_nil (h : IsEncoding e) : e ≠ [] := by
  cases h <;> exact List.cons_ne_nil _ _

/-- An encoding ends with its last byte, whatever comes behind it. -/
theorem lastPosition?_append (h : IsEncoding e) (rest : Bytes) :
    lastPosition? (e ++ rest) = some (e.length - 1) := by
  induction h with
  | last hb => rw [List.cons_append, lastPosition?_cons, if_pos hb, List.length_singleton]
  | cons hb he ih =>
      have hpos := List.length_pos_iff.mpr he.ne_nil
      rw [List.cons_append, lastPosition?_cons, if_neg (Nat.not_lt.mpr hb), ih, Option.map_some,
        Nat.sub_add_cancel hpos, List.length_cons, Nat.add_sub_cancel]

end IsEncoding

/-- The bytes up to the first one without continuation bit are an encoding. -/
theorem isEncoding_take {bytes : Bytes} {k : Nat} (h : lastPosition? bytes = some k) :
    IsEncoding (bytes.take (k + 1)) ∧ k + 1 ≤ bytes.length := by
  induction bytes generalizing k with
  | nil => exact absurd h nofun
  | cons b bytes ih =>
      rw [lastPosition?_cons] at h
      rw [List.take_succ_cons, List.length_cons]
      by_cases hb : b.toNat < 128
      · rw [if_pos hb] at h
        obtain rfl := Option.some.inj h
        exact ⟨.last hb, Nat.succ_le_succ (Nat.zero_le _)⟩
      · rw [if_neg hb, Option.map_eq_some_iff] at h
        obtain ⟨j, hj, rfl⟩ := h
        obtain ⟨htake, hlength⟩ := ih hj
        exact ⟨.cons (Nat.not_lt.mp hb) htake, Nat.succ_le_succ hlength⟩

/-! ### What the groups sum up to -/

/-- The sum of the groups, each with the weight of its position. -/
def groupSum (bytes : Bytes) : Nat :=
  (bytes.mapIdx fun i b => b.toNat % 128 * 2 ^ (7 * i)).sum

/-- The integer that the groups tell in two's complement: bit 6 of the last byte is the sign. -/
def signedSum (bytes : Bytes) : Int :=
  groupSum bytes - if (bytes.getLastD 0).toNat.testBit 6 then 2 ^ (7 * bytes.length) else 0

/-- The groups are digits to the base 128. -/
theorem groupSum_eq_ofDigits (bytes : Bytes) :
    groupSum bytes = Nat.ofDigits 128 (bytes.map (·.toNat % 128)) := by
  have hweights : (bytes.map (·.toNat % 128)).mapIdx (fun i digit => digit * 128 ^ i)
      = bytes.mapIdx fun i b => b.toNat % 128 * 2 ^ (7 * i) := by
    apply List.ext_getElem
    · simp
    · intro i _ _
      simp [Nat.pow_mul]
  rw [Nat.ofDigits_eq_sum_mapIdx, hweights, groupSum]

/-- The first group counts as it is, and the others 128 times. -/
theorem groupSum_cons (b : UInt8) (bytes : Bytes) :
    groupSum (b :: bytes) = b.toNat % 128 + 128 * groupSum bytes := by
  simp only [groupSum_eq_ofDigits, List.map_cons, Nat.ofDigits_cons]

/-- The number of one group. -/
theorem groupSum_singleton (b : UInt8) : groupSum [b] = b.toNat % 128 := by
  rw [groupSum_cons]
  rfl

/-- A last group comes above the bits of those before it. -/
theorem groupSum_concat (front : Bytes) (b : UInt8) :
    groupSum (front ++ [b]) = groupSum front + 2 ^ (7 * front.length) * (b.toNat % 128) := by
  simp [groupSum_eq_ofDigits, Nat.ofDigits_append, Nat.pow_mul]

/-- Groups of seven bits each add up to a number of as many bits. -/
theorem groupSum_lt (bytes : Bytes) : groupSum bytes < 2 ^ (7 * bytes.length) := by
  have h := Nat.ofDigits_lt_base_pow_length (b := 128) (l := bytes.map (·.toNat % 128))
    (by decide) (by
      intro x hx
      obtain ⟨b, -, rfl⟩ := List.mem_map.mp hx
      exact Nat.mod_lt _ (by decide))
  rw [List.length_map, ← groupSum_eq_ofDigits] at h
  rwa [Nat.pow_mul]

/-- The last group counts with its sign. -/
theorem signedSum_concat (front : Bytes) {last : UInt8} (hlast : last.toNat < 128) :
    signedSum (front ++ [last])
      = groupSum front + 2 ^ (7 * front.length) * signedGroup last.toNat := by
  have hsign : last.toNat.testBit 6 = decide (64 ≤ last.toNat) := by
    rw [Nat.testBit_eq_decide_div_mod_eq, decide_eq_decide]
    omega
  have hpow : (2 : Int) ^ (7 * (front ++ [last]).length) = 2 ^ (7 * front.length) * 128 := by
    rw [List.length_append, List.length_singleton, Nat.mul_add, Int.pow_add]
    rfl
  simp only [signedSum, groupSum_concat, List.getLastD_concat, hsign, Nat.mod_eq_of_lt hlast, hpow,
    signedGroup, decide_eq_true_eq]
  push_cast
  split <;> ring

/-- The integer of one group. -/
theorem signedSum_singleton {last : UInt8} (hlast : last.toNat < 128) :
    signedSum [last] = signedGroup last.toNat := by
  have h := signedSum_concat [] hlast
  rw [List.nil_append, List.length_nil] at h
  simpa [groupSum] using h

/-- A group is added to those that follow it as to a number: the sign is that of the last one. -/
theorem signedSum_cons (b : UInt8) {e : Bytes} (he : e ≠ []) :
    signedSum (b :: e) = (b.toNat % 128 : Nat) + 128 * signedSum e := by
  have hlast : (b :: e).getLastD 0 = e.getLastD 0 := by
    rw [List.getLastD_eq_getLast?, List.getLastD_eq_getLast?, List.getLast?_cons_of_ne_nil he]
  rw [signedSum, signedSum, hlast, groupSum_cons, List.length_cons, Nat.mul_add, pow_add]
  push_cast
  split <;> ring

/-! ### What is written -/

/-- What natural numbers are written as is an encoding: the last byte alone ends it. -/
theorem isEncoding_unsigned (n : Nat) : IsEncoding (unsigned n) := by
  induction n using Nat.strongRecOn with
  | ind n ih =>
      by_cases hlast : n < 128
      · rw [unsigned_of_lt hlast]
        refine .last ?_
        rwa [toNat_ofNat_of_lt (by omega)]
      · rw [unsigned_of_ge hlast]
        refine .cons ?_ (ih (n / 128) (by omega))
        rw [toNat_continued]
        omega

/-- What is written for a number tells it. -/
theorem groupSum_unsigned (n : Nat) : groupSum (unsigned n) = n := by
  induction n using Nat.strongRecOn with
  | ind n ih =>
      by_cases hlast : n < 128
      · rw [unsigned_of_lt hlast, groupSum_singleton, toNat_ofNat_of_lt (by omega),
          Nat.mod_eq_of_lt hlast]
      · rw [unsigned_of_ge hlast, groupSum_cons, ih (n / 128) (by omega), toNat_continued]
        omega

/-- What integers are written as is an encoding: the last byte alone ends it. -/
theorem isEncoding_signed (z : Int) : IsEncoding (signed z) := by
  induction z using signed.induct with
  | case1 z hends =>
      have hgroup := lowGroup_lt z
      rw [signed_of_ends hends]
      refine .last ?_
      rwa [toNat_ofNat_of_lt (by omega)]
  | case2 z hends ih =>
      have hgroup := lowGroup_lt z
      rw [signed_of_not_ends hends]
      refine .cons ?_ ih
      rw [toNat_ofNat_of_lt (by omega)]
      omega

/-- What is written for an integer tells it. -/
theorem signedSum_signed (z : Int) : signedSum (signed z) = z := by
  induction z using signed.induct with
  | case1 z hends =>
      have hgroup := lowGroup_lt z
      have hbyte : (UInt8.ofNat (lowGroup z)).toNat = lowGroup z := toNat_ofNat_of_lt (by omega)
      rw [signed_of_ends hends, signedSum_singleton (by omega), hbyte, signedGroup_lowGroup hends]
  | case2 z hends ih =>
      have hgroup := lowGroup_lt z
      have hbyte : (UInt8.ofNat (lowGroup z + 128)).toNat = lowGroup z + 128 :=
        toNat_ofNat_of_lt (by omega)
      have hrest := (isEncoding_signed (z / 128)).ne_nil
      rw [signed_of_not_ends hends, signedSum_cons _ hrest, ih, hbyte]
      unfold lowGroup
      omega

end WasmAssembly.Leb128
