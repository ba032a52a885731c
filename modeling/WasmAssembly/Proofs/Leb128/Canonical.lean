import WasmAssembly.Proofs.Bytes.Buffer
import WasmAssembly.Proofs.Leb128.Checked

/-!
# `WasmAssembly.Proofs.Leb128.Canonical`: the shortest encoding

An integer has many encodings that a decoder accepts: behind the groups it needs there may stand
more that only repeat its sign. `padded` is that form. `encode_of_decode` says that there are no
others, signed or unsigned: what a decoder accepts is the encoding that the encoder writes, or that
one padded, so none is shorter and only that one has its length.

Both halves are one induction over the bytes of an encoding. A group in front of others either comes
before groups that are needed, and then the encoder writes it too, or before padding of one group,
and then the padding is longer by one.
-/

set_option autoImplicit false

namespace WasmAssembly.Leb128

/-! ### Padding -/

/-- An encoding with `extra` groups more than it has, each of them `fill`. All bytes but the last
one then say that another one follows. -/
def padded (e : Bytes) (fill : UInt8) : (extra : Nat) → Bytes
  | 0 => e
  | extra + 1 => (e ++ List.replicate extra fill).map (· ||| 0x80) ++ [fill]

/-- The group that repeats the sign of an integer. -/
def signFill (z : Int) : UInt8 :=
  if z < 0 then 0x7f else 0

/-- Padding makes an encoding longer by the groups that are put in. -/
@[simp]
theorem length_padded (e : Bytes) (fill : UInt8) (extra : Nat) :
    (padded e fill extra).length = e.length + extra := by
  cases extra with
  | zero => rfl
  | succ extra => simp [padded]

/-- A byte that others follow is made of its group. -/
theorem ofNat_mod_add_of_le {b : UInt8} (h : 128 ≤ b.toNat) :
    UInt8.ofNat (b.toNat % 128 + 128) = b := by
  have hlt := b.toNat_lt
  rw [show b.toNat % 128 + 128 = b.toNat by omega, UInt8.ofNat_toNat]

/-- The continuation bit, set where it is set already. -/
theorem or_continuationBit_of_le {b : UInt8} (h : 128 ≤ b.toNat) : b ||| 0x80 = b := by
  have key : ∀ g, g < 128 → UInt8.ofNat (g + 128) ||| 0x80 = UInt8.ofNat (g + 128) := by decide
  have hb := key (b.toNat % 128) (Nat.mod_lt _ (by decide))
  rwa [ofNat_mod_add_of_le h] at hb

/-- Bytes in front of an encoding stand in front of it padded. -/
theorem cons_padded {c : UInt8} (hc : 128 ≤ c.toNat) (e : Bytes) (fill : UInt8) (extra : Nat) :
    c :: padded e fill extra = padded (c :: e) fill extra := by
  cases extra with
  | zero => rfl
  | succ extra =>
      rw [padded, padded, List.cons_append, List.map_cons, or_continuationBit_of_le hc,
        List.cons_append]

/-- A group in front of padding of one group is padded by one group more. -/
theorem cons_padded_singleton {c : UInt8} (hc : 128 ≤ c.toNat) (fill : UInt8) (extra : Nat) :
    c :: padded [fill] fill extra = padded [UInt8.ofNat (c.toNat % 128)] fill (extra + 1) := by
  have hset : UInt8.ofNat (c.toNat % 128) ||| 0x80 = c := by
    rw [Buffer.or_continuationBit (Nat.mod_lt _ (by decide)), ofNat_mod_add_of_le hc]
  cases extra with
  | zero =>
      rw [padded, padded, List.replicate_zero, List.append_nil, List.map_singleton, hset,
        List.singleton_append]
  | succ extra => simp [padded, List.replicate_succ, hset]

/-! ### What is accepted is padded -/

/-- The bytes of an encoding are those that are written for their number, or these padded. -/
theorem exists_padded_unsigned {e : Bytes} (he : IsEncoding e) :
    ∃ extra, e = padded (unsigned (groupSum e)) 0 extra := by
  induction he with
  | @last b hb =>
      refine ⟨0, ?_⟩
      rw [groupSum_singleton, Nat.mod_eq_of_lt hb, unsigned_of_lt hb, UInt8.ofNat_toNat]
      rfl
  | @cons c e hc he ih =>
      obtain ⟨extra, hrest⟩ := ih
      rw [groupSum_cons]
      generalize groupSum e = high at hrest ⊢
      have hgroup : c.toNat % 128 < 128 := Nat.mod_lt _ (by decide)
      by_cases hzero : high = 0
      · -- Only padding follows, so the group is the whole number.
        subst hzero
        refine ⟨extra + 1, ?_⟩
        rw [unsigned_of_lt (by decide)] at hrest
        rw [Nat.mul_zero, Nat.add_zero, unsigned_of_lt hgroup, hrest]
        exact cons_padded_singleton hc 0 extra
      · have hge : ¬c.toNat % 128 + 128 * high < 128 := by omega
        have hlow : (c.toNat % 128 + 128 * high) % 128 = c.toNat % 128 := by omega
        have hhigh : (c.toNat % 128 + 128 * high) / 128 = high := by omega
        refine ⟨extra, ?_⟩
        rw [unsigned_of_ge hge, hlow, hhigh, ofNat_mod_add_of_le hc, ← cons_padded hc, ← hrest]

/-- An integer that repeats its sign everywhere is one group that does so. -/
theorem signed_of_fill {z : Int} (h : z = 0 ∨ z = -1) : signed z = [signFill z] := by
  obtain rfl | rfl := h <;> rw [signed_of_ends (by decide)] <;> rfl

/-- A last group is what is written for the integer that it tells. -/
theorem signed_signedGroup {group : Nat} (hgroup : group < 128) :
    signed (signedGroup group) = [UInt8.ofNat group] := by
  have hends : endsWithGroup (signedGroup group) := by
    rw [endsWithGroup_iff, signedGroup]
    split <;> omega
  have hlow : lowGroup (signedGroup group) = group := by
    unfold lowGroup signedGroup
    split <;> omega
  rw [signed_of_ends hends, hlow]

/-- The bytes of an encoding are those that are written for their integer, or these padded with its
sign. -/
theorem exists_padded_signed {e : Bytes} (he : IsEncoding e) :
    ∃ extra, e = padded (signed (signedSum e)) (signFill (signedSum e)) extra := by
  induction he with
  | @last b hb =>
      refine ⟨0, ?_⟩
      rw [signedSum_singleton hb, signed_signedGroup hb, UInt8.ofNat_toNat]
      rfl
  | @cons c e hc he ih =>
      obtain ⟨extra, hrest⟩ := ih
      rw [signedSum_cons c he.ne_nil]
      generalize signedSum e = high at hrest ⊢
      have hgroup : c.toNat % 128 < 128 := Nat.mod_lt _ (by decide)
      have hlow : lowGroup ((c.toNat % 128 : Nat) + 128 * high) = c.toNat % 128 := by
        unfold lowGroup
        omega
      have hhigh : (((c.toNat % 128 : Nat) : Int) + 128 * high) / 128 = high := by omega
      -- The group does not change the sign.
      have hfill : signFill ((c.toNat % 128 : Nat) + 128 * high) = signFill high := by
        unfold signFill
        split <;> split <;> first | rfl | omega
      by_cases hends : endsWithGroup ((c.toNat % 128 : Nat) + 128 * high)
      · -- Only copies of the sign follow, so the group tells the whole integer.
        have hsign : high = 0 ∨ high = -1 := by
          rw [endsWithGroup_iff] at hends
          omega
        refine ⟨extra + 1, ?_⟩
        rw [signed_of_fill hsign] at hrest
        rw [signed_of_ends hends, hlow, hfill, hrest]
        exact cons_padded_singleton hc _ extra
      · refine ⟨extra, ?_⟩
        rw [signed_of_not_ends hends, hlow, hhigh, hfill, ofNat_mod_add_of_le hc, ← cons_padded hc,
          ← hrest]

/-! ### Encoding what was decoded -/

/-- Padded bytes are at least as long as what is padded, and the same only if no group was added. -/
theorem length_le_of_eq_padded {taken e : Bytes} {fill : UInt8} {extra : Nat}
    (h : taken = padded e fill extra) :
    e.length ≤ taken.length ∧ (e.length = taken.length ↔ e = taken) ∧
      taken = padded e fill (taken.length - e.length) := by
  have hlength : taken.length = e.length + extra := by rw [h, length_padded]
  refine ⟨by omega, ⟨?_, ?_⟩, ?_⟩
  · intro hsame
    obtain rfl : extra = 0 := by omega
    exact h.symm
  · rintro rfl
    rfl
  · rw [hlength, Nat.add_sub_cancel_left]
    exact h

/-- The encoders write the shortest encoding, and it is the only one of its length. What a decoder
reads from some bytes at a width the encoder writes at this width, in no more bytes. If they are as
many, they are the bytes that were read; if they are fewer, the bytes that were read are those
padded with groups that repeat the sign. -/
theorem encode_of_decode {bits : Nat} (hbits : 1 ≤ bits ∧ bits ≤ 128) (bytes : Bytes) :
    (∀ v n, decodeUnsigned bits bytes = .ok (v, n) →
      ∃ e, encodeUnsigned bits v = .ok e ∧ e.length ≤ n ∧ (e.length = n ↔ e = bytes.take n) ∧
        bytes.take n = padded e 0 (n - e.length)) ∧
    ∀ v n, decodeSigned bits bytes = .ok (v, n) →
      ∃ e, encodeSigned bits v = .ok e ∧ e.length ≤ n ∧ (e.length = n ↔ e = bytes.take n) ∧
        bytes.take n = padded e (signFill v) (n - e.length) := by
  constructor
  · intro v n hdecode
    rw [decodeUnsigned_eq_classify hbits] at hdecode
    obtain ⟨he, hn, hv, hfits⟩ := classify_eq_ok hdecode
    obtain ⟨extra, hpadded⟩ := exists_padded_unsigned he
    have hpos := Nat.two_pow_pos bits
    refine ⟨unsigned v, (encodeUnsigned_of_le hbits (by omega)).1, ?_⟩
    rw [← hv] at hpadded
    have hlength := length_le_of_eq_padded hpadded
    rwa [List.length_take, Nat.min_eq_left hn] at hlength
  · intro v n hdecode
    rw [decodeSigned_eq_classify hbits] at hdecode
    obtain ⟨he, hn, hv, hlow, hhigh⟩ := classify_eq_ok hdecode
    obtain ⟨extra, hpadded⟩ := exists_padded_signed he
    have hfits : FitsSigned bits v := by
      unfold FitsSigned
      push_cast
      exact ⟨hlow, hhigh⟩
    refine ⟨signed v, (encodeSigned_of_fits hbits hfits).1, ?_⟩
    rw [← hv] at hpadded
    have hlength := length_le_of_eq_padded hpadded
    rwa [List.length_take, Nat.min_eq_left hn] at hlength

/-- The number 300 in five bytes and -1 in three, both accepted and both padded. -/
theorem encode_of_decode_padded :
    (∃ e, encodeUnsigned 32 300 = .ok e ∧ e.length ≤ 5 ∧
      [0xac, 0x82, 0x80, 0x80, 0x00] = padded e 0 (5 - e.length)) ∧
    ∃ e, encodeSigned 33 (-1) = .ok e ∧ e.length ≤ 3 ∧
      [0xff, 0xff, 0x7f] = padded e 0x7f (3 - e.length) := by
  obtain ⟨e, he, hle, -, hpadded⟩ := (@encode_of_decode 32 (by decide)
    [0xac, 0x82, 0x80, 0x80, 0x00, 0x05]).1 300 5 (by decide)
  obtain ⟨e', he', hle', -, hpadded'⟩ := (@encode_of_decode 33 (by decide)
    [0xff, 0xff, 0x7f]).2 (-1) 3 (by decide)
  exact ⟨⟨e, he, hle, hpadded⟩, e', he', hle', hpadded'⟩

end WasmAssembly.Leb128
