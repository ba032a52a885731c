import WasmAssembly.Leb128.Width
import WasmAssembly.Proofs.Bytes.Ascii

/-!
# `WasmAssembly.Proofs.Leb128.WidthText`: how widths are written

`Spells` is the grammar of widths: the letter `u`, `i` or `s` and at least one ASCII digit. It is
about characters and numbers of any size, while `Width.ofText?` looks at bytes and counts in words
of 32 bits. The two agree on every text (`ofText?_eq_some_iff`), for two reasons:

* All characters of a spelled width are ASCII, and each of them is one byte. Bytes below 128 are the
  bytes of such characters only (`Bytes.eq_ofList_of_utf8`).
* A number is at least as large as what is read of it on the way, so a word gets too large at some
  digit only if the number is too large (`foldlM_appendDigit?`). Leading zeros do not count.

`parse_exact` is the result, with the error for all other texts.
-/

set_option autoImplicit false

namespace WasmAssembly

/-! ### Digits -/

namespace Decimal

/-- The bytes of digits are those from `0` to `9`. -/
theorem isDigit_iff (b : UInt8) : isDigit b = true ↔ 48 ≤ b.toNat ∧ b.toNat ≤ 57 := by
  simp [isDigit, UInt8.le_iff_toNat_le]

/-- The characters that are digits are those from `0` to `9`. -/
theorem toNat_bounds_of_isDigit {c : Char} (h : c.isDigit = true) :
    48 ≤ c.toNat ∧ c.toNat ≤ 57 :=
  Char.isDigit_iff_toNat.mp h

/-- A digit is an ASCII character. -/
theorem toNat_lt_of_isDigit {c : Char} (h : c.isDigit = true) : c.toNat < 128 := by
  have := toNat_bounds_of_isDigit h
  omega

/-- What has been read of a number is not larger than the whole number. -/
theorem le_ofDigitChars (cs : List Char) (n : Nat) : n ≤ Nat.ofDigitChars 10 cs n := by
  rw [Nat.ofDigitChars_eq_ofDigitChars_zero]
  calc n = 1 * n := (Nat.one_mul n).symm
    _ ≤ 10 ^ cs.length * n := Nat.mul_le_mul_right n (Nat.pow_pos (by decide))
    _ ≤ 10 ^ cs.length * n + Nat.ofDigitChars 10 cs 0 := Nat.le_add_right _ _

/-- What a digit adds to a word is what its character adds to a number. -/
theorem appendDigit?_toUInt8 {c : Char} (h : c.isDigit = true) (word : UInt32) :
    appendDigit? word c.toUInt8
      = if 10 * word.toNat + (c.toNat - '0'.toNat) < UInt32.size then
          some (UInt32.ofNat (10 * word.toNat + (c.toNat - '0'.toNat)))
        else none := by
  rw [appendDigit?, digitValue, Bytes.toNat_toUInt8 (toNat_lt_of_isDigit h)]
  rfl

/-- Words are read as numbers are, as long as the number fits a word. If it does not fit after some
digits, it does not after all of them. -/
theorem foldlM_appendDigit? {cs : List Char} (h : ∀ c ∈ cs, c.isDigit = true) (word : UInt32) :
    (cs.map Char.toUInt8).foldlM appendDigit? word
      = if Nat.ofDigitChars 10 cs word.toNat < UInt32.size then
          some (UInt32.ofNat (Nat.ofDigitChars 10 cs word.toNat))
        else none := by
  induction cs generalizing word with
  | nil =>
      rw [Nat.ofDigitChars_nil, if_pos word.toNat_lt_size, UInt32.ofNat_toNat]
      rfl
  | cons c cs ih =>
      have hcs : ∀ d ∈ cs, d.isDigit = true := fun d hd => h d (List.mem_cons_of_mem c hd)
      rw [List.map_cons, List.foldlM_cons, appendDigit?_toUInt8 (h c List.mem_cons_self),
        Nat.ofDigitChars_cons]
      generalize 10 * word.toNat + (c.toNat - '0'.toNat) = n
      by_cases hfits : n < UInt32.size
      · have hword : (UInt32.ofNat n).toNat = n := UInt32.toNat_ofNat_of_lt' hfits
        rw [if_pos hfits, Option.bind_eq_bind, Option.bind_some, ih hcs, hword]
      · have hlarge := le_ofDigitChars cs n
        rw [if_neg hfits, if_neg (by omega)]
        rfl

/-- Digits denote a word if their number fits one. -/
theorem word?_eq_some_iff {cs : List Char} (h : ∀ c ∈ cs, c.isDigit = true) {word : UInt32} :
    word? (cs.map Char.toUInt8) = some word ↔ word.toNat = Nat.ofDigitChars 10 cs 0 := by
  rw [word?, foldlM_appendDigit? h]
  show (if Nat.ofDigitChars 10 cs 0 < UInt32.size then
      some (UInt32.ofNat (Nat.ofDigitChars 10 cs 0)) else none) = some word ↔ _
  by_cases hfits : Nat.ofDigitChars 10 cs 0 < UInt32.size
  · rw [if_pos hfits, Option.some.injEq, ← UInt32.toNat_inj, UInt32.toNat_ofNat_of_lt' hfits]
    exact eq_comm
  · rw [if_neg hfits]
    constructor
    · nofun
    · intro hword
      exact absurd (hword ▸ word.toNat_lt_size) hfits

end Decimal

namespace Leb128

/-! ### The grammar -/

/-- A number in decimal: at least one digit, with any number of leading zeros. -/
structure IsNumeral (digits : List Char) : Prop where
  ne_nil : digits ≠ []
  isDigit : ∀ c ∈ digits, c.isDigit = true

/-- A text spells a signedness and a number of bits. -/
inductive Spells : (text : String) → (signed : Bool) → (bits : Nat) → Prop where
  | unsigned {digits : List Char} (h : IsNumeral digits) :
      Spells (String.ofList ('u' :: digits)) false (Nat.ofDigitChars 10 digits 0)
  | signed {letter : Char} {digits : List Char} (hletter : letter = 'i' ∨ letter = 's')
      (h : IsNumeral digits) :
      Spells (String.ofList (letter :: digits)) true (Nat.ofDigitChars 10 digits 0)

namespace Width

/-- A width is made of its sign and its number of bits, and is made of nothing else. -/
theorem ofBits?_eq_some_iff {bits : Nat} {signed : Bool} {w : Width} :
    ofBits? bits signed = some w ↔ w.signed = signed ∧ w.bits = bits := by
  rw [ofBits?]
  split
  · rw [Option.some.injEq]
    constructor
    · rintro rfl
      exact ⟨rfl, rfl⟩
    · obtain ⟨wbits, wsigned, _, _⟩ := w
      rintro ⟨rfl, rfl⟩
      rfl
  · rename_i hbits
    constructor
    · nofun
    · rintro ⟨-, rfl⟩
      exact absurd ⟨w.one_le_bits, w.bits_le⟩ hbits

/-- The letters of widths are ASCII. -/
theorem toNat_lt_of_signedness? {letter : UInt8} {signed : Bool}
    (h : signedness? letter = some signed) : letter.toNat < 128 := by
  rw [signedness?] at h
  split at h
  · rename_i hu
    subst hu
    decide
  · split at h
    · rename_i his
      obtain rfl | rfl := his <;> decide
    · exact absurd h nofun

/-- A letter and some bytes behind it are read as a width if the bytes are digits. -/
theorem ofText?_of_utf8 {text : String} {letter : UInt8} {digits : Bytes} {w : Width}
    (h : Bytes.utf8 text = letter :: digits) :
    ofText? text = some w ↔
      signedness? letter = some w.signed ∧ digits ≠ [] ∧
        (∀ b ∈ digits, Decimal.isDigit b = true) ∧
          ∃ word, Decimal.word? digits = some word ∧ w.bits = word.toNat := by
  have hguard : ¬(digits.isEmpty || !digits.all Decimal.isDigit) = true ↔
      digits ≠ [] ∧ ∀ b ∈ digits, Decimal.isDigit b = true := by
    simp
  simp only [ofText?, h, Option.bind_eq_bind, Option.bind_eq_some_iff]
  constructor
  · rintro ⟨signed, hletter, hrest⟩
    split at hrest
    · exact absurd hrest nofun
    · rename_i hdigits
      rw [hguard] at hdigits
      obtain ⟨word, hword, hwidth⟩ := Option.bind_eq_some_iff.mp hrest
      obtain ⟨rfl, hbits⟩ := ofBits?_eq_some_iff.mp hwidth
      exact ⟨hletter, hdigits.1, hdigits.2, word, hword, hbits⟩
  · rintro ⟨hletter, hne, hdigits, word, hword, hbits⟩
    refine ⟨w.signed, hletter, ?_⟩
    rw [if_neg (hguard.mpr ⟨hne, hdigits⟩), hword, Option.bind_some]
    exact ofBits?_eq_some_iff.mpr ⟨rfl, hbits⟩

/-- An ASCII letter in front of a numeral is read by what each of them stands for. -/
theorem ofText?_ofList {letter : Char} {digits : List Char} (hletter : letter.toNat < 128)
    (hdigits : IsNumeral digits) {w : Width} :
    ofText? (String.ofList (letter :: digits)) = some w ↔
      signedness? letter.toUInt8 = some w.signed ∧ w.bits = Nat.ofDigitChars 10 digits 0 := by
  have hascii : ∀ c ∈ letter :: digits, c.toNat < 128 := by
    intro c hc
    obtain rfl | hc := List.mem_cons.mp hc
    · exact hletter
    · exact Decimal.toNat_lt_of_isDigit (hdigits.isDigit c hc)
  have hbytes : ∀ b ∈ digits.map Char.toUInt8, Decimal.isDigit b = true := by
    intro b hb
    obtain ⟨c, hc, rfl⟩ := List.mem_map.mp hb
    have hdigit := hdigits.isDigit c hc
    rw [Decimal.isDigit_iff, Bytes.toNat_toUInt8 (Decimal.toNat_lt_of_isDigit hdigit)]
    exact Decimal.toNat_bounds_of_isDigit hdigit
  have hne : digits.map Char.toUInt8 ≠ [] := fun h => hdigits.ne_nil (List.map_eq_nil_iff.mp h)
  rw [ofText?_of_utf8 (Bytes.utf8_ofList_of_ascii hascii)]
  simp only [Decimal.word?_eq_some_iff hdigits.isDigit]
  constructor
  · rintro ⟨hsigned, -, -, word, hword, hbits⟩
    exact ⟨hsigned, hbits.trans hword⟩
  · rintro ⟨hsigned, hbits⟩
    -- A width has no more than 128 bits, so its bit count is a word.
    have hlt : w.bits < UInt32.size := Nat.lt_of_le_of_lt w.bits_le (by decide)
    have hword : (UInt32.ofNat w.bits).toNat = w.bits := UInt32.toNat_ofNat_of_lt' hlt
    exact ⟨hsigned, hne, hbytes, UInt32.ofNat w.bits, hword.trans hbits, hword.symm⟩

/-- What is read as a width is an ASCII letter in front of a numeral. -/
theorem exists_ofList_of_ofText? {text : String} {w : Width} (h : ofText? text = some w) :
    ∃ letter digits, text = String.ofList (letter :: digits) ∧ letter.toNat < 128 ∧
      IsNumeral digits := by
  cases hbytes : Bytes.utf8 text with
  | nil =>
      rw [ofText?, hbytes] at h
      exact absurd h nofun
  | cons letter digits =>
      obtain ⟨hletter, hne, hdigits, -⟩ := (ofText?_of_utf8 hbytes).mp h
      have hascii : ∀ b ∈ letter :: digits, b.toNat < 128 := by
        intro b hb
        obtain rfl | hb := List.mem_cons.mp hb
        · exact toNat_lt_of_signedness? hletter
        · have := (Decimal.isDigit_iff b).mp (hdigits b hb)
          omega
      refine ⟨Char.ofUInt8 letter, digits.map Char.ofUInt8, Bytes.eq_ofList_of_utf8 hbytes hascii,
        ?_, ?_, ?_⟩
      · rw [Bytes.toNat_ofUInt8]
        exact hascii letter List.mem_cons_self
      · exact fun h => hne (List.map_eq_nil_iff.mp h)
      · intro c hc
        obtain ⟨b, hb, rfl⟩ := List.mem_map.mp hc
        rw [Char.isDigit_iff_toNat, Bytes.toNat_ofUInt8]
        exact (Decimal.isDigit_iff b).mp (hdigits b hb)

/-- The letters that stand for a signedness. -/
theorem signedness?_toUInt8_eq_some_iff {letter : Char} (h : letter.toNat < 128) {signed : Bool} :
    signedness? letter.toUInt8 = some signed ↔
      letter = 'u' ∧ signed = false ∨ (letter = 'i' ∨ letter = 's') ∧ signed = true := by
  have hu : letter.toUInt8 = 0x75 ↔ letter = 'u' := Bytes.toUInt8_inj h 'u' (by decide)
  have hi : letter.toUInt8 = 0x69 ↔ letter = 'i' := Bytes.toUInt8_inj h 'i' (by decide)
  have hs : letter.toUInt8 = 0x73 ↔ letter = 's' := Bytes.toUInt8_inj h 's' (by decide)
  simp only [signedness?, hu, hi, hs]
  by_cases hunsigned : letter = 'u'
  · subst hunsigned
    simp
  · by_cases hsigned : letter = 'i' ∨ letter = 's'
    · simp [hunsigned, hsigned]
    · simp [hunsigned, hsigned]

/-- A text is read as a width exactly if it spells it. -/
theorem ofText?_eq_some_iff {text : String} {w : Width} :
    ofText? text = some w ↔ Spells text w.signed w.bits := by
  constructor
  · intro h
    obtain ⟨letter, digits, rfl, hletter, hdigits⟩ := exists_ofList_of_ofText? h
    obtain ⟨hsigned, hbits⟩ := (ofText?_ofList hletter hdigits).mp h
    rw [hbits]
    obtain ⟨rfl, hsign⟩ | ⟨his, hsign⟩ := (signedness?_toUInt8_eq_some_iff hletter).mp hsigned
    · rw [hsign]
      exact .unsigned hdigits
    · rw [hsign]
      exact .signed his hdigits
  · generalize hsign : w.signed = signed
    generalize hbits : w.bits = bits
    intro h
    cases h with
    | unsigned hdigits =>
        rw [ofText?_ofList (by decide) hdigits, hsign]
        exact ⟨rfl, hbits⟩
    | signed hletter hdigits =>
        obtain rfl | rfl := hletter
        all_goals
          rw [ofText?_ofList (by decide) hdigits, hsign]
          exact ⟨rfl, hbits⟩

/-- The text of a width spells it. -/
theorem spells_text (w : Width) : Spells w.text w.signed w.bits := by
  have hdigits : IsNumeral (Nat.toDigits 10 w.bits) :=
    ⟨Nat.toDigits_ne_nil, fun c hc => Nat.isDigit_of_mem_toDigits (by decide) (by decide) hc⟩
  have htext : w.text = String.ofList (letter w.signed :: Nat.toDigits 10 w.bits) := by
    rw [text, describe, Nat.toString_eq_ofList_toDigits, Char.toString_eq_singleton,
      ← String.ofList_cons]
  have hbits : Nat.ofDigitChars 10 (Nat.toDigits 10 w.bits) 0 = w.bits :=
    Nat.ofDigitChars_ten_toDigits
  rw [htext]
  cases w.signed with
  | false =>
      have h := Spells.unsigned hdigits
      rwa [hbits] at h
  | true =>
      have h := Spells.signed (.inl rfl : 'i' = 'i' ∨ 'i' = 's') hdigits
      rwa [hbits] at h

/-- A text is parsed to the width that it spells. -/
theorem parse_eq_ok_iff {text : String} {w : Width} :
    parse text = .ok w ↔ Spells text w.signed w.bits := by
  rw [← ofText?_eq_some_iff, parse]
  cases ofText? text with
  | none => exact ⟨nofun, nofun⟩
  | some found => rw [Except.ok.injEq, Option.some.injEq]

/-- Behind the letter of a width another character begins, or the text ends. -/
theorem isValid_behind_letter {text : String} {letter : UInt8} {behind : Bytes}
    (h : Bytes.utf8 text = letter :: behind) (hletter : letter.toNat < 128) :
    (⟨1⟩ : String.Pos.Raw).IsValid text := by
  have hascii : (Char.ofUInt8 letter).toNat < 128 := by rwa [Bytes.toNat_ofUInt8]
  have hdata : text.toByteArray.data = (letter :: behind).toArray := by
    rw [← h, Bytes.utf8, Array.toArray_toList]
  have hsize : 1 ≤ text.toByteArray.size := by
    rw [ByteArray.size, hdata, List.size_toArray, List.length_cons]
    omega
  -- The first byte alone is the form of an ASCII character.
  have hfirst : text.toByteArray.extract 0 1 = [Char.ofUInt8 letter].utf8Encode := by
    apply ByteArray.ext
    rw [ByteArray.data_extract, hdata, List.utf8Encode, List.data_toByteArray,
      List.flatMap_singleton, Bytes.utf8EncodeChar_of_ascii hascii, Bytes.toUInt8_ofUInt8]
    simp
  rw [String.Pos.Raw.isValid_iff_isValidUTF8_extract_zero]
  exact ⟨hsize, .intro _ hfirst⟩

/-- Reading widths is exact. A text is read as a width of some signedness and bit count exactly if
it spells them and the bit count is between 1 and 128; every other text is an error that holds it.
If the first byte is a letter of a width, the text can be cut behind it. What a width is written as
is read as that width. -/
theorem parse_exact (text : String) :
    (∀ signed bits, (∃ w, parse text = .ok w ∧ w.signed = signed ∧ w.bits = bits) ↔
      Spells text signed bits ∧ 1 ≤ bits ∧ bits ≤ 128) ∧
    ((¬∃ signed bits, Spells text signed bits ∧ 1 ≤ bits ∧ bits ≤ 128) →
      parse text = .error (.malformedWidth text)) ∧
    (∀ letter behind, Bytes.utf8 text = letter :: behind → (signedness? letter).isSome = true →
      (⟨1⟩ : String.Pos.Raw).IsValid text) ∧
    ∀ w : Width, parse w.text = .ok w := by
  refine ⟨?_, ?_, ?_, ?_⟩
  · intro signed bits
    constructor
    · rintro ⟨w, hparse, rfl, rfl⟩
      exact ⟨parse_eq_ok_iff.mp hparse, w.one_le_bits, w.bits_le⟩
    · rintro ⟨hspells, hlow, hhigh⟩
      exact ⟨⟨bits, signed, hlow, hhigh⟩, parse_eq_ok_iff.mpr hspells, rfl, rfl⟩
  · intro hnone
    rw [parse]
    cases hwidth : ofText? text with
    | none => rfl
    | some w => exact absurd ⟨_, _, ofText?_eq_some_iff.mp hwidth, w.one_le_bits, w.bits_le⟩ hnone
  · intro letter behind hbytes hsome
    obtain ⟨signed, hletter⟩ := Option.isSome_iff_exists.mp hsome
    exact isValid_behind_letter hbytes (toNat_lt_of_signedness? hletter)
  · intro w
    exact parse_eq_ok_iff.mpr (spells_text w)

end Width

end Leb128

end WasmAssembly
