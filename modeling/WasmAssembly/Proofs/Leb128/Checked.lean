import WasmAssembly.Proofs.Leb128.Decoding

/-!
# `WasmAssembly.Proofs.Leb128.Checked`: the encoders that check a width

`encodeUnsigned` and `encodeSigned` check a bit count, then that the value fits it, and then write
groups of seven bits into at most as many bytes as the width allows. The theorems:

* `encodeUnsigned_roundTrip`, `encodeSigned_roundTrip`: what is accepted, what is refused and why,
  how long the encoding is, and that it reads back at the same width whatever bytes follow.

The writers count their bytes and would give up on one too many. That they never do is a fact about
`unsigned` and `signed`, which write without counting: a value that fits a width takes at most one
byte for every seven bits begun (`length_unsigned_le_maxBytes`, `length_signed_le_maxBytes`).
-/

set_option autoImplicit false

namespace WasmAssembly.Leb128

/-! ### Widths -/

/-- A width that is out of range is an error that names it. -/
theorem Width.make_eq_error {bits : Nat} (signed : Bool) (h : ¬(1 ≤ bits ∧ bits ≤ maxBits)) :
    Width.make bits signed = .error (.malformedWidth (Width.describe bits signed)) := by
  simp only [Width.make, Width.ofBits?, dif_neg h]

/-- The largest number of an unsigned width. -/
theorem Width.maxUnsigned_eq (w : Width) : w.maxUnsigned = 2 ^ w.bits - 1 := by
  rw [Width.maxUnsigned, Nat.one_shiftLeft]

/-- The smallest integer of a signed width. -/
theorem Width.minSigned_eq (w : Width) : w.minSigned = -(2 ^ (w.bits - 1) : Nat) := by
  rw [Width.minSigned, Width.half, Nat.one_shiftLeft]

/-- The largest integer of a signed width. -/
theorem Width.maxSigned_eq (w : Width) : w.maxSigned = (2 ^ (w.bits - 1) : Nat) - 1 := by
  rw [Width.maxSigned, Width.half, Nat.one_shiftLeft]

/-! ### Writing into bounded room -/

/-- With room for all its groups, a number is written as without a bound. -/
theorem encodeUnsigned_groups_eq (w : Width) {n room : Nat} (h : (unsigned n).length ≤ room) :
    encodeUnsigned.groups w room n = .ok (unsigned n) := by
  induction room generalizing n with
  | zero =>
      have := List.length_pos_iff.mpr (unsigned_ne_nil n)
      omega
  | succ room ih =>
      by_cases hlast : n < 128
      · rw [encodeUnsigned.groups, if_pos (Nat.div_eq_of_lt hlast), unsigned_of_lt hlast,
          Nat.mod_eq_of_lt hlast]
      · rw [unsigned_of_ge hlast, List.length_cons] at h
        have hrest := ih (n := n / 128) (by omega)
        rw [encodeUnsigned.groups, if_neg (by omega), hrest, unsigned_of_ge hlast, Except.map]

/-- With room for all its groups, an integer is written as without a bound. -/
theorem encodeSigned_groups_eq (w : Width) {z : Int} {room : Nat}
    (h : (signed z).length ≤ room) : encodeSigned.groups w room z = .ok (signed z) := by
  induction room generalizing z with
  | zero =>
      rw [signed] at h
      split at h <;> simp at h
  | succ room ih =>
      by_cases hends : endsWithGroup z
      · rw [encodeSigned.groups, if_pos hends, signed_of_ends hends]
      · rw [signed_of_not_ends hends, List.length_cons] at h
        have hrest := ih (z := z / 128) (by omega)
        rw [encodeSigned.groups, if_neg hends, hrest, signed_of_not_ends hends, Except.map]

/-! ### The checks in order -/

variable {bits : Nat}

/-- An unsigned width that is out of range is reported whatever the value. -/
theorem encodeUnsigned_of_not_width {value : Nat} (h : ¬(1 ≤ bits ∧ bits ≤ maxBits)) :
    encodeUnsigned bits value = .error (.malformedWidth (Width.describe bits false)) := by
  rw [encodeUnsigned, Width.make_eq_error false h]
  rfl

/-- A number that is too large for an admissible width is out of range. -/
theorem encodeUnsigned_of_lt {value : Nat} (hbits : 1 ≤ bits ∧ bits ≤ maxBits)
    (h : 2 ^ bits - 1 < value) :
    encodeUnsigned bits value
      = .error (.outOfRange (toString value) ⟨bits, false, hbits.1, hbits.2⟩) := by
  rw [encodeUnsigned, Width.make_eq_ok false hbits]
  exact if_pos (by rwa [Width.maxUnsigned_eq])

/-- A number that fits a width is written without running out of room. -/
theorem encodeUnsigned_of_le {value : Nat} (hbits : 1 ≤ bits ∧ bits ≤ maxBits)
    (h : value ≤ 2 ^ bits - 1) :
    encodeUnsigned bits value = .ok (unsigned value) ∧
      (unsigned value).length ≤ (bits + 6) / 7 := by
  let w : Width := ⟨bits, false, hbits.1, hbits.2⟩
  have hfits : value < 2 ^ w.bits := Nat.lt_of_le_sub_one (Nat.two_pow_pos bits) h
  have hlength : (unsigned value).length ≤ w.maxBytes := length_unsigned_le_maxBytes hfits
  refine ⟨?_, hlength⟩
  rw [encodeUnsigned, Width.make_eq_ok false hbits]
  show (if w.maxUnsigned < value then _ else encodeUnsigned.groups w w.maxBytes value) = _
  rw [if_neg (by rw [Width.maxUnsigned_eq]; exact Nat.not_lt.mpr h),
    encodeUnsigned_groups_eq w hlength]

/-- A signed width that is out of range is reported whatever the value. -/
theorem encodeSigned_of_not_width {value : Int} (h : ¬(1 ≤ bits ∧ bits ≤ maxBits)) :
    encodeSigned bits value = .error (.malformedWidth (Width.describe bits true)) := by
  rw [encodeSigned, Width.make_eq_error true h]
  rfl

/-- The integers of a width, read as two's complement. -/
def FitsSigned (bits : Nat) (value : Int) : Prop :=
  -(2 ^ (bits - 1) : Nat) ≤ value ∧ value ≤ (2 ^ (bits - 1) : Nat) - 1

/-- An integer that does not fit an admissible width is out of range. -/
theorem encodeSigned_of_not_fits {value : Int} (hbits : 1 ≤ bits ∧ bits ≤ maxBits)
    (h : ¬FitsSigned bits value) :
    encodeSigned bits value
      = .error (.outOfRange (toString value) ⟨bits, true, hbits.1, hbits.2⟩) := by
  rw [encodeSigned, Width.make_eq_ok true hbits]
  refine if_pos ?_
  rw [Width.minSigned_eq, Width.maxSigned_eq]
  simp only [FitsSigned, Decidable.not_and_iff_not_or_not, Int.not_le] at h
  exact h

/-- An integer that fits a width is written without running out of room. -/
theorem encodeSigned_of_fits {value : Int} (hbits : 1 ≤ bits ∧ bits ≤ maxBits)
    (h : FitsSigned bits value) :
    encodeSigned bits value = .ok (signed value) ∧ (signed value).length ≤ (bits + 6) / 7 := by
  let w : Width := ⟨bits, true, hbits.1, hbits.2⟩
  obtain ⟨hlow, hhigh⟩ := h
  have hlength : (signed value).length ≤ w.maxBytes :=
    length_signed_le_maxBytes hlow (Int.lt_of_le_sub_one hhigh)
  refine ⟨?_, hlength⟩
  rw [encodeSigned, Width.make_eq_ok true hbits]
  show (if value < w.minSigned ∨ w.maxSigned < value then _
    else encodeSigned.groups w w.maxBytes value) = _
  rw [if_neg, encodeSigned_groups_eq w hlength]
  rw [Width.minSigned_eq, Width.maxSigned_eq]
  rintro (hbelow | habove)
  · exact absurd hlow (Int.not_le.mpr hbelow)
  · exact absurd hhigh (Int.not_le.mpr habove)

/-! ### Both directions together -/

/-- An encoder that checks its width, then its value, and then has room gives bytes exactly when
both checks pass, and never finds its own encoding too long. -/
theorem checked_encoder {x : Except Error Bytes} {width fits : Prop} {form : Bytes}
    (hwidth : ¬width → ∃ text, x = .error (.malformedWidth text))
    (hfits : width → ¬fits → ∃ value w, x = .error (.outOfRange value w))
    (hform : width → fits → x = .ok form) :
    ((∃ e, x = .ok e) ↔ width ∧ fits) ∧ (∀ w max, x ≠ .error (.overlong w max)) ∧
      ∀ e, x = .ok e → width ∧ fits ∧ e = form := by
  by_cases hw : width
  · by_cases hf : fits
    · rw [hform hw hf]
      refine ⟨⟨fun _ => ⟨hw, hf⟩, fun _ => ⟨form, rfl⟩⟩, fun _ _ => nofun, ?_⟩
      intro e he
      exact ⟨hw, hf, (Except.ok.inj he).symm⟩
    · obtain ⟨value, w, hx⟩ := hfits hw hf
      rw [hx]
      exact ⟨⟨fun h => absurd h nofun, fun h => absurd h.2 hf⟩, fun _ _ => nofun, fun _ => nofun⟩
  · obtain ⟨text, hx⟩ := hwidth hw
    rw [hx]
    exact ⟨⟨fun h => absurd h nofun, fun h => absurd h.1 hw⟩, fun _ _ => nofun, fun _ => nofun⟩

/-- What such an encoder gives is the one encoding of the value. -/
theorem checked_encoder_eq_ok {x : Except Error Bytes} {width fits : Prop} {form e : Bytes}
    (hwidth : ¬width → ∃ text, x = .error (.malformedWidth text))
    (hfits : width → ¬fits → ∃ value w, x = .error (.outOfRange value w))
    (hform : width → fits → x = .ok form) : x = .ok e ↔ (width ∧ fits) ∧ e = form := by
  obtain ⟨-, -, haccepted⟩ := checked_encoder hwidth hfits hform
  constructor
  · intro h
    obtain ⟨hw, hf, heq⟩ := haccepted e h
    exact ⟨⟨hw, hf⟩, heq⟩
  · rintro ⟨⟨hw, hf⟩, rfl⟩
    exact hform hw hf

/-- A number is encoded exactly if the width is admissible and the number fits it, and then in the
shortest way. -/
theorem encodeUnsigned_eq_ok {value : Nat} {e : Bytes} :
    encodeUnsigned bits value = .ok e ↔
      ((1 ≤ bits ∧ bits ≤ maxBits) ∧ value ≤ 2 ^ bits - 1) ∧ e = unsigned value :=
  checked_encoder_eq_ok (fun h => ⟨_, encodeUnsigned_of_not_width h⟩)
    (fun hbits h => ⟨_, _, encodeUnsigned_of_lt hbits (Nat.lt_of_not_le h)⟩)
    fun hbits h => (encodeUnsigned_of_le hbits h).1

/-- An integer is encoded exactly if the width is admissible and the integer fits it, and then in
the shortest way. -/
theorem encodeSigned_eq_ok {value : Int} {e : Bytes} :
    encodeSigned bits value = .ok e ↔
      ((1 ≤ bits ∧ bits ≤ maxBits) ∧ FitsSigned bits value) ∧ e = signed value :=
  checked_encoder_eq_ok (fun h => ⟨_, encodeSigned_of_not_width h⟩)
    (fun hbits h => ⟨_, _, encodeSigned_of_not_fits hbits h⟩)
    fun hbits h => (encodeSigned_of_fits hbits h).1

/-- Unsigned encoding at any width. It gives bytes for the numbers of the width and otherwise says
what is wrong, the width before the value. The bytes are at most one for every seven bits begun and
read back at that width, with any bytes behind them. -/
theorem encodeUnsigned_roundTrip (bits value : Nat) :
    ((∃ e, encodeUnsigned bits value = .ok e) ↔
      (1 ≤ bits ∧ bits ≤ 128) ∧ value ≤ 2 ^ bits - 1) ∧
    (¬(1 ≤ bits ∧ bits ≤ 128) →
      encodeUnsigned bits value = .error (.malformedWidth (Width.describe bits false))) ∧
    (∀ hbits : 1 ≤ bits ∧ bits ≤ 128, ¬value ≤ 2 ^ bits - 1 →
      encodeUnsigned bits value
        = .error (.outOfRange (toString value) ⟨bits, false, hbits.1, hbits.2⟩)) ∧
    (∀ w max, encodeUnsigned bits value ≠ .error (.overlong w max)) ∧
    ∀ e, encodeUnsigned bits value = .ok e →
      e.length ≤ (bits + 6) / 7 ∧
        ∀ tail, decodeUnsigned bits (e ++ tail) = .ok (value, e.length) := by
  have hrange (hbits : 1 ≤ bits ∧ bits ≤ 128) (h : ¬value ≤ 2 ^ bits - 1) :=
    encodeUnsigned_of_lt hbits (Nat.lt_of_not_le h)
  obtain ⟨hok, hlong, hform⟩ := checked_encoder (x := encodeUnsigned bits value)
    (fun h => ⟨_, encodeUnsigned_of_not_width h⟩) (fun hbits h => ⟨_, _, hrange hbits h⟩)
    fun hbits h => (encodeUnsigned_of_le hbits h).1
  refine ⟨hok, encodeUnsigned_of_not_width, hrange, hlong, ?_⟩
  intro e he
  obtain ⟨hbits, hfits, rfl⟩ := hform e he
  have hpos := Nat.two_pow_pos bits
  exact ⟨(encodeUnsigned_of_le hbits hfits).2, decodeUnsigned_unsigned hbits (by omega)⟩

/-- Signed encoding at any width. It gives bytes for the integers of the width and otherwise says
what is wrong, the width before the value. The bytes are those of `signed`, whose loop ends for
every integer with no bound on it; they are at most one for every seven bits begun and read back at
that width, with any bytes behind them. -/
theorem encodeSigned_roundTrip (bits : Nat) (value : Int) :
    ((∃ e, encodeSigned bits value = .ok e) ↔
      (1 ≤ bits ∧ bits ≤ 128) ∧
        -(2 ^ (bits - 1) : Nat) ≤ value ∧ value ≤ (2 ^ (bits - 1) : Nat) - 1) ∧
    (¬(1 ≤ bits ∧ bits ≤ 128) →
      encodeSigned bits value = .error (.malformedWidth (Width.describe bits true))) ∧
    (∀ hbits : 1 ≤ bits ∧ bits ≤ 128,
      ¬(-(2 ^ (bits - 1) : Nat) ≤ value ∧ value ≤ (2 ^ (bits - 1) : Nat) - 1) →
      encodeSigned bits value
        = .error (.outOfRange (toString value) ⟨bits, true, hbits.1, hbits.2⟩)) ∧
    (∀ w max, encodeSigned bits value ≠ .error (.overlong w max)) ∧
    ∀ e, encodeSigned bits value = .ok e →
      e = signed value ∧ e.length ≤ (bits + 6) / 7 ∧
        ∀ tail, decodeSigned bits (e ++ tail) = .ok (value, e.length) := by
  have hrange (hbits : 1 ≤ bits ∧ bits ≤ 128) (h : ¬FitsSigned bits value) :=
    encodeSigned_of_not_fits hbits h
  obtain ⟨hok, hlong, hform⟩ := checked_encoder (x := encodeSigned bits value)
    (fun h => ⟨_, encodeSigned_of_not_width h⟩) (fun hbits h => ⟨_, _, hrange hbits h⟩)
    fun hbits h => (encodeSigned_of_fits hbits h).1
  refine ⟨hok, encodeSigned_of_not_width, hrange, hlong, ?_⟩
  intro e he
  obtain ⟨hbits, hfits, rfl⟩ := hform e he
  exact ⟨rfl, (encodeSigned_of_fits hbits hfits).2,
    decodeSigned_signed hbits hfits.1 (by have := hfits.2; omega)⟩

end WasmAssembly.Leb128
