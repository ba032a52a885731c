import WasmAssembly.Json.Number

/-!
# `WasmAssembly.Proofs.Json.Text`: strings and numbers read back

What is written for a string or a number is read back as that string or number, and reading stops
where the writing ended. A string ends with a quote of its own, and no byte of it looks like one:
each is escaped or stands for itself (`stringBytes_escapeByte`). The digits of a number have no end
of their own, so for them it matters what comes next. In a text of JSON this is nothing, or a byte
that no number has (`Delimited`).
-/

set_option autoImplicit false

namespace WasmAssembly.Json

/-- What may stand behind a value: nothing, the comma before the next one, or the end of the array
or object that it is in. -/
inductive Delimited : Bytes → Prop where
  | nil : Delimited []
  | comma (rest : Bytes) : Delimited (comma :: rest)
  | closeBracket (rest : Bytes) : Delimited (closeBracket :: rest)
  | closeBrace (rest : Bytes) : Delimited (closeBrace :: rest)

/-! ### Escapes -/

/-- A hexadecimal digit is read as its value. -/
theorem hexValue?_hexDigit : ∀ n < 16, hexValue? (hexDigit n) = some n := by
  decide

/-- A letter that stands for a byte stands for no other, and is not the one for codes. -/
theorem find?_of_mem_escapeLetters {entry : UInt8 × UInt8} (h : entry ∈ escapeLetters) :
    entry.1 ≠ letterU ∧ escapeLetters.find? (·.1 == entry.1) = some entry := by
  simp only [escapeLetters, List.mem_cons, List.not_mem_nil, or_false] at h
  obtain rfl | rfl | rfl | rfl | rfl | rfl | rfl | rfl := h <;> decide

/-- The code of a control character is its byte. -/
theorem utf8EncodeChar_ofNat_control :
    ∀ n < 32, String.utf8EncodeChar (Char.ofNat n) = [UInt8.ofNat n] := by
  decide

/-- A letter behind a backslash is read as the byte it stands for. -/
theorem escape_letter {entry : UInt8 × UInt8} (h : entry ∈ escapeLetters) (rest : Bytes) :
    escape (entry.1 :: rest) = .ok ([entry.2], 1) := by
  obtain ⟨hletter, hfind⟩ := find?_of_mem_escapeLetters h
  rw [escape, if_neg hletter, hfind]

/-- The code of a control character is read as its byte. -/
theorem escape_code {b : UInt8} (h : b.toNat < 32) (rest : Bytes) :
    escape (letterU :: hexDigit 0 :: hexDigit 0 :: hexDigit (b.toNat / 16) ::
      hexDigit (b.toNat % 16) :: rest) = .ok ([b], 5) := by
  have hzero := hexValue?_hexDigit 0 (by omega)
  have hhigh := hexValue?_hexDigit (b.toNat / 16) (by omega)
  have hlow := hexValue?_hexDigit (b.toNat % 16) (by omega)
  have hquad : hexQuad (hexDigit 0 :: hexDigit 0 :: hexDigit (b.toNat / 16) ::
      hexDigit (b.toNat % 16) :: rest) = .ok b.toNat := by
    simp only [hexQuad, hzero, hhigh, hlow, Except.ok.injEq]
    omega
  -- The code is far below those of surrogates.
  have hcode : unicodeEscape (hexDigit 0 :: hexDigit 0 :: hexDigit (b.toNat / 16) ::
      hexDigit (b.toNat % 16) :: rest) = .ok ([b], 4) := by
    unfold unicodeEscape
    rw [hquad]
    show (if 0xdc00 ≤ b.toNat ∧ _ then _ else if 0xd800 ≤ b.toNat ∧ _ then _ else _) = _
    rw [if_neg (by omega), if_neg (by omega), utf8EncodeChar_ofNat_control b.toNat h,
      UInt8.ofNat_toNat]
  rw [escape, if_pos rfl, hcode]
  rfl

/-- A byte stands for itself in a string, or there is an escape which is read as this byte. -/
theorem escapeByte_cases (b : UInt8) :
    (escapeByte b = [b] ∧ b ≠ quote ∧ b ≠ backslash ∧ 0x20 ≤ b) ∨
      ∃ code, escapeByte b = backslash :: code ∧
        ∀ rest, escape (code ++ rest) = .ok ([b], code.length) := by
  unfold escapeByte
  by_cases hself : b = quote ∨ b = backslash
  · have hmem : (b, b) ∈ escapeLetters := by
      obtain rfl | rfl := hself <;> decide
    rw [if_pos hself]
    exact .inr ⟨[b], rfl, escape_letter hmem⟩
  · rw [if_neg hself]
    by_cases hplain : 0x20 ≤ b
    · obtain ⟨hquote, hbackslash⟩ := not_or.mp hself
      rw [if_pos hplain]
      exact .inl ⟨rfl, hquote, hbackslash, hplain⟩
    · rw [if_neg hplain]
      cases hfind : escapeLetters.find? (·.2 == b) with
      | some entry =>
          have hbyte : entry.2 = b := by
            simpa using List.find?_some hfind
          subst hbyte
          exact .inr ⟨[entry.1], rfl, escape_letter (List.mem_of_find?_eq_some hfind)⟩
      | none =>
          have hcontrol : b.toNat < 32 := Nat.lt_of_not_le hplain
          exact .inr ⟨_, rfl, escape_code hcontrol⟩

/-- A byte of a string is read back, however it is written. -/
theorem stringBytes_escapeByte (done : Bytes) (b : UInt8) (rest : Bytes) :
    stringBytes done (escapeByte b ++ rest) = stringBytes (b :: done) rest := by
  obtain ⟨hform, hquote, hbackslash, hplain⟩ | ⟨code, hform, hescape⟩ := escapeByte_cases b
  · rw [hform, List.singleton_append, stringBytes, if_neg hquote, if_neg hbackslash,
      if_neg (UInt8.not_lt.mpr hplain)]
  · rw [hform, List.cons_append, stringBytes, if_neg (by decide), if_pos rfl, hescape]
    simp only [List.drop_left, List.reverse_singleton, List.singleton_append]

/-! ### Strings -/

/-- The escaped bytes of a text are read up to the closing quote, whatever has been read before. -/
theorem stringBytes_flatMap (done bytes rest : Bytes) :
    stringBytes done (bytes.flatMap escapeByte ++ quote :: rest)
      = .ok (done.reverse ++ bytes, rest) := by
  induction bytes generalizing done with
  | nil => rw [List.flatMap_nil, List.nil_append, stringBytes, if_pos rfl, List.append_nil]
  | cons b bytes ih =>
      rw [List.flatMap_cons, List.append_assoc, stringBytes_escapeByte, ih, List.reverse_cons,
        List.append_assoc, List.singleton_append]

/-- A quote and a line feed are escaped by letters, a null byte by its code, and the rest stands for
itself. -/
example : [0x22, 0x0a, 0x00, 0x7a].flatMap escapeByte
    = [0x5c, 0x22, 0x5c, 0x6e, 0x5c, 0x75, 0x30, 0x30, 0x30, 0x30, 0x7a] := by
  decide

/-- A string begins with a quote, and what comes behind the quote is read as the string. -/
theorem stringBody_string (text : String) :
    ∃ body, string text = quote :: body ∧
      ∀ rest, stringBody (body ++ rest) = .ok (text, rest) := by
  refine ⟨(Bytes.utf8 text).flatMap escapeByte ++ [quote], rfl, ?_⟩
  intro rest
  have hbytes := stringBytes_flatMap [] (Bytes.utf8 text) rest
  rw [List.append_assoc, List.singleton_append, stringBody, hbytes]
  simp only [bind, Except.bind, List.reverse_nil, List.nil_append, Bytes.ofUtf8?_utf8]

/-! ### Numbers -/

/-- The digits are digits to the reader. -/
theorem isDigit_digitByte : ∀ d < 10, Decimal.isDigit (Decimal.digitByte d) = true := by
  decide

/-- A digit is read as its value. -/
theorem digitValue_digitByte : ∀ d < 10, Decimal.digitValue (Decimal.digitByte d) = d := by
  decide

/-- Numbers have no leading zeros: the first digit is zero only for the number zero. -/
theorem digits_cons (n : Nat) :
    ∃ d more, Decimal.digits n = Decimal.digitByte d :: more ∧ d < 10 ∧
      (d = 0 → n = 0 ∧ more = []) := by
  induction n using Decimal.digits.induct with
  | case1 n h =>
      rw [Decimal.digits, if_pos h]
      exact ⟨n, [], rfl, h, fun hzero => ⟨hzero, rfl⟩⟩
  | case2 n h ih =>
      obtain ⟨d, more, hform, hd, hzero⟩ := ih
      -- The first digit is that of `n / 10`, which is not zero.
      rw [Decimal.digits, if_neg h, hform]
      refine ⟨d, more ++ [Decimal.digitByte (n % 10)], rfl, hd, ?_⟩
      intro hfirst
      have hfront := (hzero hfirst).1
      omega

/-- The digits of a number that fits 64 bits are read as the number, one after the other. -/
theorem readDigits_digits {n : Nat} (h : n < significandLimit) (rest : Bytes) :
    readDigits 0 0 (Decimal.digits n ++ rest) = readDigits n (Decimal.digits n).length rest := by
  induction n using Decimal.digits.induct generalizing rest with
  | case1 n hsmall =>
      rw [Decimal.digits, if_pos hsmall, List.singleton_append, readDigits,
        if_pos (isDigit_digitByte n hsmall), digitValue_digitByte n hsmall, Nat.zero_mul,
        Nat.zero_add]
      exact if_pos h
  | case2 n hlarge ih =>
      -- The digits of `n / 10` are read first, and with the last one the number is `n` itself, so
      -- the limit is not met on the way.
      have hlast : n % 10 < 10 := Nat.mod_lt n (by decide)
      have hvalue : n / 10 * 10 + n % 10 = n := Nat.div_add_mod' n 10
      rw [Decimal.digits, if_neg hlarge, List.append_assoc, ih (by omega), List.singleton_append,
        readDigits, if_pos (isDigit_digitByte _ hlast), digitValue_digitByte _ hlast, hvalue,
        List.length_append]
      exact if_pos h

/-- A number ends where no digit follows. -/
theorem readDigits_delimited {rest : Bytes} (h : Delimited rest) (n taken : Nat) :
    readDigits n taken rest = (n, taken, rest) := by
  cases h <;> rfl

/-- A number without a fraction and an exponent is a whole one. -/
theorem readWholeTail_delimited {rest : Bytes} (h : Delimited rest) (n : Nat) :
    readWholeTail false n rest = .ok (.nonneg n, rest) := by
  cases h <;> rfl

/-- A number that fits 64 bits begins with a digit and is read back. -/
theorem readNumber_nat {n : Nat} (h : n < significandLimit) :
    ∃ d < 10, ∃ more, nat n = Decimal.digitByte d :: more ∧
      ∀ {rest}, Delimited rest →
        readNumber (Decimal.digitByte d) (more ++ rest) = .ok (.nonneg n, rest) := by
  obtain ⟨d, more, hform, hd, hzero⟩ := digits_cons n
  have hminus : ∀ d < 10, Decimal.digitByte d ≠ 0x2d := by
    decide
  have hnonzero : ∀ d < 10, Decimal.digitByte d = 0x30 → d = 0 := by
    decide
  refine ⟨d, hd, more, hform, ?_⟩
  intro rest hrest
  rw [readNumber, if_neg (hminus d hd), readUnsigned]
  by_cases hfirst : Decimal.digitByte d = 0x30
  · -- A zero is the whole number, so no digit follows it.
    obtain ⟨rfl, rfl⟩ := hzero (hnonzero d hd hfirst)
    rw [if_pos hfirst]
    cases hrest <;> rfl
  · rw [if_neg hfirst, if_pos (isDigit_digitByte d hd), ← List.cons_append, ← hform,
      readDigits_digits h, readDigits_delimited hrest]
    exact readWholeTail_delimited hrest n

end WasmAssembly.Json
