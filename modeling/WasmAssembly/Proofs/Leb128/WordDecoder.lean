import WasmAssembly.Proofs.Leb128.MachineWord

/-!
# `WasmAssembly.Proofs.Leb128.WordDecoder`: decoding on machine words

`decodeUnsigned` and `decodeSigned` count bits with natural numbers, which have no end and whose
difference stops at zero. Here the same decoders run on machine words: positions and bit counts are
words of 32 bits, groups are bytes, and each operation on them may trap.

No decoder asks whether a position is within its width before it subtracts the one from the other.
That there are bits left to fill wherever a byte is taken is an invariant of the loop,
`Reaches.lt_maxBytes`: only a byte with continuation bit leads to another one, and the last byte
that the width allows ends the loop if it has that bit. What is subtracted and how far is shifted
is then bounded by the width.

* `Tracks` relates a decoder on words to a loop over numbers, byte by byte. `Tracks.answers` goes on
  from there to all bytes: the decoder never traps, and it gives the answer of the loop.
* `decoders_never_trap` says so of both decoders, together with the bounds of widths.
-/

set_option autoImplicit false

namespace WasmAssembly.Leb128

open MachineWord

/-! ### Decoders on machine words -/

/-- What a decoder does after a byte: it takes another one, or it is done. -/
inductive Step (α : Type) where
  | more (word : Word)
  | done (result : Except Error (α × Nat))

/-- The answer after a step, if `next` is what comes of taking another byte. -/
def Step.resume {α : Type} (next : Word → Except Error (α × Nat)) : Step α → Except Error (α × Nat)
  | .more word => next word
  | .done result => result

/-- The two things that the decoders do differently. -/
structure WordDecoder (α : Type) where
  /-- Whether a group has bits that the width cuts off, from whether it is the last one and how many
  bits of the width are left. -/
  excess? : (last : Bool) → (remaining : BitVec 32) → (group : BitVec 8) → Option Bool
  /-- The integer in a word whose last group has been put in from bit `shift` on. -/
  finish? : (shift : BitVec 32) → (group : BitVec 8) → Word → Option α

/-- The unsigned decoder. No group may have a bit beyond the width. -/
def unsignedDecoder : WordDecoder Nat where
  excess? _ remaining group :=
    if remaining < 7#32 then do
      return (← shiftRight? group remaining) != 0#8
    else return false
  finish? _ _ word := return word.toNat

/-- The signed decoder. The bits of the last group from the top of the width on must be equal, and
above the group the word takes its sign. -/
def signedDecoder : WordDecoder Int where
  excess? last remaining group :=
    if last && remaining < 7#32 then do
      let upper ← shiftRight? group (← sub? remaining 1#32)
      if upper == 0#8 then
        return false
      return upper != (← shiftRight? 0x7f#8 (← sub? remaining 1#32))
    else return false
  finish? shift group word := do
    let consumed ← add? shift 7#32
    if consumed < 128#32 && group &&& 0x40#8 != 0#8 then
      return (word ||| (← shiftLeft? (BitVec.allOnes maxBits) consumed)).toInt
    return word.toInt

/-- A byte without continuation bit. -/
def isLast (b : UInt8) : Bool :=
  b.toBitVec &&& 0x80#8 == 0#8

/-- The seven low bits of a byte. -/
def group (b : UInt8) : BitVec 8 :=
  b.toBitVec &&& 0x7f#8

namespace WordDecoder

variable {α : Type}

/-- One byte, with `read` bytes already read into `word`. To count bytes cannot overflow, since the
bytes are there; to turn the count into a bit position can. -/
def step? (d : WordDecoder α) (w : Width) (read : Nat) (word : Word) (b : UInt8) :
    Option (Step α) := do
  if !isLast b && read + 1 == w.maxBytes then
    return .done (.error (.overlong w w.maxBytes))
  let shift ← mul? 7#32 (BitVec.ofNat 32 read)
  let remaining ← sub? w.bitsWord shift
  if ← d.excess? (isLast b) remaining (group b) then
    return .done (.error (.excessBits w))
  let word := word ||| (← shiftLeft? ((group b).setWidth maxBits) shift)
  if isLast b then
    return .done (.ok (← d.finish? shift (group b) word, read + 1))
  return .more word

/-- All bytes from a state on. -/
def run? (d : WordDecoder α) (w : Width) :
    (read : Nat) → (word : Word) → Bytes → Option (Except Error (α × Nat))
  | read, _, [] => some (.error (.unexpectedEnd read))
  | read, word, b :: rest => do
    match ← d.step? w read word b with
    | .more word => run? d w (read + 1) word rest
    | .done result => some result

/-- The states that the loop comes to over some bytes: how many it has read, the word, and the bytes
that are left. -/
inductive Reaches (d : WordDecoder α) (w : Width) (bytes : Bytes) : Nat → Word → Bytes → Prop where
  | start : Reaches d w bytes 0 0 bytes
  | more {read : Nat} {word word' : Word} {b : UInt8} {rest : Bytes}
      (h : Reaches d w bytes read word (b :: rest))
      (hstep : d.step? w read word b = some (.more word')) :
      Reaches d w bytes (read + 1) word' rest

/-- A loop over numbers takes the steps of a decoder on words, and within the width these do not
trap. -/
structure Tracks (d : WordDecoder α) (w : Width)
    (loop : Nat → Word → Bytes → Except Error (α × Nat)) : Prop where
  /-- The bytes end before the encoding does. -/
  ends : ∀ read word, loop read word [] = .error (.unexpectedEnd read)
  /-- One byte is taken as the decoder takes it. -/
  step : ∀ read word b, 7 * read < w.bits → ∃ s, d.step? w read word b = some s ∧
    ∀ rest, loop read word (b :: rest) = s.resume (loop (read + 1) · rest)

/-- The loop over some bytes gives an answer, and on the way there it never traps. -/
structure Answers (d : WordDecoder α) (w : Width) (bytes : Bytes)
    (answer : Except Error (α × Nat)) : Prop where
  /-- Wherever it comes to, there are bits of the width left to fill. -/
  within : ∀ read word rest, d.Reaches w bytes read word rest → 7 * read < w.bits
  /-- No byte would make it trap there, so the next one does not. -/
  defined : ∀ read word rest, d.Reaches w bytes read word rest →
    ∀ b, (d.step? w read word b).isSome
  /-- The run over all bytes comes to its end. -/
  answer : d.run? w 0 0 bytes = some answer

end WordDecoder

/-! ### Bytes and their groups -/

/-- One bit of a byte, tested by a mask. -/
theorem and_twoPow_eq_zero (g : BitVec 8) {i : Nat} (hi : i < 8) :
    (g &&& BitVec.twoPow 8 i == 0#8) = !g.toNat.testBit i := by
  have hpow : BitVec.twoPow 8 i ≠ 0#8 := by
    intro h
    have hnat := congrArg BitVec.toNat h
    rw [BitVec.toNat_twoPow_of_lt hi] at hnat
    exact Nat.ne_of_gt (Nat.two_pow_pos i) hnat
  rw [BitVec.and_twoPow, BitVec.getLsbD]
  cases g.toNat.testBit i with
  | false => rfl
  | true => exact beq_eq_false_iff_ne.mpr hpow

/-- The last byte is told by its top bit. -/
theorem isLast_eq (b : UInt8) : isLast b = decide (b.toNat < 128) := by
  have hlt := b.toNat_lt
  rw [isLast, show (0x80#8) = BitVec.twoPow 8 7 from rfl, and_twoPow_eq_zero _ (by decide),
    UInt8.toNat_toBitVec, Nat.testBit_eq_decide_div_mod_eq, ← decide_not, decide_eq_decide]
  omega

/-- The group of a byte is the number of its low seven bits. -/
theorem toNat_group (b : UInt8) : (group b).toNat = b.toNat % 128 := by
  rw [group, BitVec.toNat_and, UInt8.toNat_toBitVec]
  exact Nat.and_two_pow_sub_one_eq_mod b.toNat 7

/-- A group as a word of full size. -/
theorem setWidth_group (b : UInt8) :
    (group b).setWidth maxBits = BitVec.ofNat maxBits (b.toNat % 128) := by
  apply BitVec.eq_of_toNat_eq
  rw [BitVec.toNat_setWidth, BitVec.toNat_ofNat, toNat_group]

/-- The sign bit of a group. -/
theorem and_signBit_ne_zero (g : BitVec 8) : (g &&& 0x40#8 != 0#8) = g.toNat.testBit 6 := by
  rw [bne, show (0x40#8) = BitVec.twoPow 8 6 from rfl, and_twoPow_eq_zero _ (by decide),
    Bool.not_not]

/-! ### What the decoders do differently -/

/-- Words are compared as numbers. -/
theorem beq_eq_toNat {n : Nat} (x y : BitVec n) : (x == y) = decide (x.toNat = y.toNat) := by
  rw [Bool.eq_iff_iff, beq_iff_eq, decide_eq_true_eq, BitVec.toNat_inj]

/-- A group is cut if fewer bits than its seven are left. -/
theorem lt_seven_iff {remaining : BitVec 32} : remaining < 7#32 ↔ remaining.toNat < 7 :=
  Iff.rfl

/-- The test of the unsigned decoder, on numbers. A group is shifted only if it is cut. -/
theorem unsignedDecoder_excess? (last : Bool) (remaining : BitVec 32) (g : BitVec 8) :
    unsignedDecoder.excess? last remaining g
      = some (decide (remaining.toNat < 7 ∧ g.toNat >>> remaining.toNat ≠ 0)) := by
  by_cases hcut : remaining.toNat < 7
  · have hshift : shiftRight? g remaining = some (g >>> remaining.toNat) :=
      shiftRight?_of_lt (by omega)
    have hzero : (g >>> remaining.toNat == 0#8) = decide (g.toNat >>> remaining.toNat = 0) := by
      rw [beq_eq_toNat, BitVec.toNat_ushiftRight]
      rfl
    simp only [unsignedDecoder, lt_seven_iff, hcut, hshift, hzero, Option.bind_eq_bind,
      Option.bind_some, Option.pure_def, if_true, true_and, bne, decide_not]
  · simp only [unsignedDecoder, lt_seven_iff, hcut, if_false, false_and, decide_false]
    rfl

/-- The test of the signed decoder, on numbers. It takes one bit off what is left of the width, so
there must be one. -/
theorem signedDecoder_excess? (last : Bool) {remaining : BitVec 32} (hpos : 1 ≤ remaining.toNat)
    (g : BitVec 8) :
    signedDecoder.excess? last remaining g
      = some (last && decide (¬signFits remaining.toNat g.toNat)) := by
  by_cases hcut : last = true ∧ remaining.toNat < 7
  · obtain ⟨rfl, hcut⟩ := hcut
    obtain ⟨above, habove, hvalue⟩ : ∃ z, sub? remaining 1#32 = some z ∧
        z.toNat = remaining.toNat - 1 := sub?_of_le hpos
    have hshift (x : BitVec 8) : shiftRight? x above = some (x >>> above.toNat) :=
      shiftRight?_of_lt (by omega)
    have hzero : (g >>> above.toNat == 0#8) = decide (g.toNat >>> (remaining.toNat - 1) = 0) := by
      rw [beq_eq_toNat, BitVec.toNat_ushiftRight, hvalue]
      rfl
    have hones : (g >>> above.toNat == 0x7f#8 >>> above.toNat)
        = decide (g.toNat >>> (remaining.toNat - 1) = 127 >>> (remaining.toNat - 1)) := by
      rw [beq_eq_toNat, BitVec.toNat_ushiftRight, BitVec.toNat_ushiftRight, hvalue]
      rfl
    simp only [signedDecoder, lt_seven_iff, hcut, habove, hshift, hzero, hones, Option.bind_eq_bind,
      Option.bind_some, Option.pure_def, Bool.true_and, decide_true, if_true, bne, signFits,
      true_implies, not_or, Bool.decide_and, decide_not]
    cases decide (g.toNat >>> (remaining.toNat - 1) = 0) <;> rfl
  · -- Other groups are not looked at: they are whole, or not the last ones.
    have hwhole : (last && decide (¬signFits remaining.toNat g.toNat)) = false := by
      rw [Bool.and_eq_false_iff, decide_eq_false_iff_not, not_not]
      by_cases hlast : last = true
      · exact .inr fun h => absurd ⟨hlast, h⟩ hcut
      · exact .inl (Bool.eq_false_iff.mpr hlast)
    simp only [signedDecoder, lt_seven_iff, Bool.and_eq_true, decide_eq_true_eq]
    rw [if_neg hcut, hwhole]
    rfl

/-- The end of the signed decoder, on numbers. The sign is shifted only within the word. -/
theorem signedDecoder_finish? {shift : BitVec 32} (hshift : shift.toNat < 128) (g : BitVec 8)
    (word : Word) :
    signedDecoder.finish? shift g word
      = some (word.extendSign (shift.toNat + 7) g.toNat).toInt := by
  obtain ⟨consumed, hconsumed, hfilled⟩ : ∃ z, add? shift 7#32 = some z ∧
      z.toNat = shift.toNat + 7 := add?_of_lt (by show shift.toNat + 7 < 2 ^ 32; omega)
  have hlimit : consumed < 128#32 ↔ shift.toNat + 7 < maxBits := by
    rw [← hfilled]
    exact Iff.rfl
  simp only [signedDecoder, hconsumed, Option.bind_eq_bind, Option.bind_some, and_signBit_ne_zero,
    hlimit, Bool.and_eq_true, decide_eq_true_eq, Word.extendSign]
  by_cases hsign : shift.toNat + 7 < maxBits ∧ g.toNat.testBit 6
  · have hroom : consumed.toNat < maxBits := by
      rw [hfilled]
      exact hsign.1
    rw [if_pos hsign, if_pos hsign, shiftLeft?_of_lt hroom, hfilled]
    rfl
  · rw [if_neg hsign, if_neg hsign]
    rfl

/-! ### One byte -/

/-- A step that numbers tell, given whether the group has excess bits and the integer that the word
then holds. -/
def stepOf {α : Type} (w : Width) (read : Nat) (word : Word) (b : UInt8) (excess : Prop)
    [Decidable excess] (result : α) : Step α :=
  if ¬b.toNat < 128 ∧ read + 1 = w.maxBytes then .done (.error (.overlong w w.maxBytes))
  else if excess then .done (.error (.excessBits w))
  else if b.toNat < 128 then .done (.ok (result, read + 1))
  else .more (word.put (7 * read) (b.toNat % 128))

namespace WordDecoder

variable {α : Type} {d : WordDecoder α} {w : Width} {read : Nat} {word word' : Word} {b : UInt8}

/-- Within the width none of the operations traps that the decoders have in common. If their own do
not either, the step is the one that numbers tell. -/
theorem step?_eq (hread : 7 * read < w.bits) {excess : Prop} [Decidable excess] {result : α}
    (hexcess : ∀ remaining : BitVec 32, remaining.toNat = w.bits - 7 * read →
      d.excess? (decide (b.toNat < 128)) remaining (group b) = some (decide excess))
    (hresult : ∀ shift : BitVec 32, shift.toNat = 7 * read →
      d.finish? shift (group b) (word.put (7 * read) (b.toNat % 128)) = some result) :
    d.step? w read word b = some (stepOf w read word b excess result) := by
  have hbits : w.bits ≤ 128 := w.bits_le
  have hproduct : (7#32).toNat * (BitVec.ofNat 32 read).toNat = 7 * read := by
    rw [BitVec.toNat_ofNat, BitVec.toNat_ofNat]
    omega
  obtain ⟨shift, hshift, hposition⟩ := mul?_of_lt (x := 7#32) (y := BitVec.ofNat 32 read)
    (by omega)
  rw [hproduct] at hposition
  obtain ⟨remaining, hremaining, hleft⟩ := sub?_of_le (x := w.bitsWord) (y := shift)
    (by rw [w.toNat_bitsWord]; omega)
  rw [w.toNat_bitsWord, hposition] at hleft
  have hput : shiftLeft? ((group b).setWidth maxBits) shift
      = some (BitVec.ofNat maxBits (b.toNat % 128) <<< (7 * read)) := by
    rw [shiftLeft?_of_lt (by rw [hposition]; exact Nat.lt_of_lt_of_le hread w.bits_le),
      setWidth_group, hposition]
  have hfilled : word ||| BitVec.ofNat maxBits (b.toNat % 128) <<< (7 * read)
      = word.put (7 * read) (b.toNat % 128) := rfl
  rw [step?, stepOf]
  simp only [hshift, hremaining, hput, hfilled, isLast_eq, hexcess _ hleft, hresult _ hposition,
    Option.bind_eq_bind, Option.bind_some, Option.pure_def, Bool.and_eq_true, Bool.not_eq_true',
    decide_eq_true_eq, decide_eq_false_iff_not, beq_iff_eq, ← apply_ite some]

/-- Only a byte that says so leads to another one, and the width allows another one behind it. -/
theorem lt_maxBytes_of_step?_eq_more (hread : read < w.maxBytes)
    (h : d.step? w read word b = some (.more word')) : read + 1 < w.maxBytes := by
  by_contra hend
  have hfull : read + 1 = w.maxBytes := by omega
  cases hlast : isLast b with
  | true => simp [step?, hlast, Option.bind_eq_some_iff] at h
  | false => simp [step?, hlast, hfull] at h

/-- Each position that the loop comes to is one that the width allows. -/
theorem Reaches.lt_maxBytes {bytes rest : Bytes} (h : d.Reaches w bytes read word rest) :
    read < w.maxBytes := by
  induction h with
  | start => exact w.one_le_maxBytes
  | more _ hstep ih => exact lt_maxBytes_of_step?_eq_more ih hstep

/-! ### All bytes -/

variable {loop : Nat → Word → Bytes → Except Error (α × Nat)}

/-- From a position that the width allows, the decoder comes to the end of the bytes and gives the
answer of the loop. -/
theorem Tracks.run?_eq (h : d.Tracks w loop) (hread : read < w.maxBytes) (word : Word)
    (bytes : Bytes) : d.run? w read word bytes = some (loop read word bytes) := by
  induction bytes generalizing read word with
  | nil => rw [run?, h.ends]
  | cons b rest ih =>
      obtain ⟨s, hs, hloop⟩ := h.step read word b ((w.lt_maxBytes_iff read).mp hread)
      rw [run?, hs, hloop]
      cases s with
      | more next => exact ih (lt_maxBytes_of_step?_eq_more hread hs) next
      | done result => rfl

/-- A decoder whose steps a loop takes never traps, on any bytes, and answers as the loop does. -/
theorem Tracks.answers (h : d.Tracks w loop) (bytes : Bytes) :
    d.Answers w bytes (loop 0 0 bytes) where
  within read word rest hreached := (w.lt_maxBytes_iff read).mp hreached.lt_maxBytes
  defined read word rest hreached b := by
    obtain ⟨s, hs, -⟩ := h.step read word b ((w.lt_maxBytes_iff read).mp hreached.lt_maxBytes)
    rw [hs]
    rfl
  answer := h.run?_eq w.one_le_maxBytes 0 bytes

end WordDecoder

section Steps

variable {w : Width} {read : Nat} {word : Word} {b : UInt8}

/-- A step of the unsigned decoder does not trap as long as there is room for a bit, and gives what
the step over numbers gives. -/
theorem unsignedDecoder_step? (hread : 7 * read < w.bits) :
    unsignedDecoder.step? w read word b
      = some (stepOf w read word b
          (w.bits - 7 * read < 7 ∧ (b.toNat % 128) >>> (w.bits - 7 * read) ≠ 0)
          (word.put (7 * read) (b.toNat % 128)).toNat) := by
  refine WordDecoder.step?_eq hread ?_ fun _ _ => rfl
  intro remaining hleft
  rw [unsignedDecoder_excess?, hleft, toNat_group]

/-- A step of the signed decoder does not trap as long as there is room for a bit, and gives what
the step over numbers gives. -/
theorem signedDecoder_step? (hread : 7 * read < w.bits) :
    signedDecoder.step? w read word b
      = some (stepOf w read word b
          (b.toNat < 128 ∧ ¬signFits (w.bits - 7 * read) (b.toNat % 128))
          ((word.put (7 * read) (b.toNat % 128)).extendSign (7 * read + 7)
            (b.toNat % 128)).toInt) := by
  refine WordDecoder.step?_eq hread ?_ ?_
  · intro remaining hleft
    rw [signedDecoder_excess? _ (by omega), hleft, toNat_group, Bool.decide_and]
  · intro shift hposition
    have hbits := w.bits_le
    rw [signedDecoder_finish? (by rw [hposition]; exact Nat.lt_of_lt_of_le hread hbits), hposition,
      toNat_group]

end Steps

/-- The unsigned decoder on words takes the steps of the loop over numbers. -/
theorem unsignedDecoder_tracks (w : Width) :
    unsignedDecoder.Tracks w (decodeUnsigned.groups w) where
  ends read word := by rw [decodeUnsigned.groups]
  step read word b hread := by
    refine ⟨_, unsignedDecoder_step? hread, ?_⟩
    intro rest
    rw [decodeUnsigned.groups, stepOf]
    split_ifs <;> rfl

/-- The signed decoder on words takes the steps of the loop over numbers. -/
theorem signedDecoder_tracks (w : Width) : signedDecoder.Tracks w (decodeSigned.groups w) where
  ends read word := by rw [decodeSigned.groups]
  step read word b hread := by
    refine ⟨_, signedDecoder_step? hread, ?_⟩
    intro rest
    rw [decodeSigned.groups, stepOf]
    split_ifs <;> rfl

/-! ### No trap -/

/-- Decoding on machine words, for all bytes at all widths. The loops of `decodeUnsigned` and
`decodeSigned` take their bytes as the decoders on words do. Wherever one of these takes a byte
there are bits of the width left, no byte makes an operation trap there, and it comes to the same
answer. And for each of these widths the bounds come out exactly. -/
theorem decoders_never_trap {bits : Nat} (hbits : 1 ≤ bits ∧ bits ≤ 128) (bytes : Bytes) :
    let u : Width := ⟨bits, false, hbits.1, hbits.2⟩
    let s : Width := ⟨bits, true, hbits.1, hbits.2⟩
    (unsignedDecoder.Tracks u (decodeUnsigned.groups u) ∧
      unsignedDecoder.Answers u bytes (decodeUnsigned bits bytes)) ∧
    (signedDecoder.Tracks s (decodeSigned.groups s) ∧
      signedDecoder.Answers s bytes (decodeSigned bits bytes)) ∧
    ∀ w ∈ [u, s],
      (w.maxUnsigned?.map BitVec.toNat = some w.maxUnsigned ∧ w.maxUnsigned = 2 ^ bits - 1) ∧
      w.signedRange?.map (Prod.map BitVec.toInt BitVec.toInt) = some (w.minSigned, w.maxSigned) ∧
      w.minSigned = -2 ^ (bits - 1) ∧ w.maxSigned = 2 ^ (bits - 1) - 1 := by
  intro u s
  refine ⟨⟨unsignedDecoder_tracks u, ?_⟩, ⟨signedDecoder_tracks s, ?_⟩, ?_⟩
  · rw [decodeUnsigned, Width.make_eq_ok false hbits]
    exact (unsignedDecoder_tracks u).answers bytes
  · rw [decodeSigned, Width.make_eq_ok true hbits]
    exact (signedDecoder_tracks s).answers bytes
  · intro w hw
    have hwidth : w.bits = bits := by
      obtain rfl | rfl := List.mem_pair.mp hw <;> rfl
    refine ⟨⟨w.maxUnsigned?_eq, ?_⟩, w.signedRange?_eq, ?_, ?_⟩
    · rw [w.maxUnsigned_eq, hwidth]
    · rw [w.minSigned_eq, hwidth, Nat.cast_pow, Nat.cast_ofNat]
    · rw [w.maxSigned_eq, hwidth, Nat.cast_pow, Nat.cast_ofNat]

/-- A last byte with five bits of the width left, and one whose group overruns the word, so that no
sign is extended. -/
theorem decoders_never_trap_at_last :
    signedDecoder.Reaches Width.s33 [0x80, 0x80, 0x80, 0x80, 0x70] 4 0 [0x70] ∧
    7 * 4 < Width.s33.bits ∧
    signedDecoder.run? Width.s33 0 0 [0x80, 0x80, 0x80, 0x80, 0x70]
      = some (.ok (-4294967296, 5)) ∧
    signedDecoder.run? ⟨128, true, by decide, by decide⟩ 0 0 (List.replicate 18 0x80 ++ [0x7e])
      = some (.ok (-(2 ^ 127), 19)) ∧
    Width.u64.maxUnsigned?.map BitVec.toNat = some 18446744073709551615 := by
  obtain ⟨-, ⟨-, hblock⟩, -⟩ := @decoders_never_trap 33 (by decide)
    [0x80, 0x80, 0x80, 0x80, 0x70]
  obtain ⟨-, ⟨-, hwidest⟩, -⟩ := @decoders_never_trap 128 (by decide)
    (List.replicate 18 0x80 ++ [0x7e])
  obtain ⟨-, -, hbounds⟩ := @decoders_never_trap 64 (by decide) []
  have hreached : signedDecoder.Reaches Width.s33 [0x80, 0x80, 0x80, 0x80, 0x70] 4 0 [0x70] :=
    .more (.more (.more (.more .start rfl) rfl) rfl) rfl
  refine ⟨hreached, hblock.within _ _ _ hreached, ?_, ?_, ?_⟩
  · exact hblock.answer.trans (congrArg some (by decide))
  · exact hwidest.answer.trans (congrArg some (by decide))
  · obtain ⟨⟨hmax, hvalue⟩, -⟩ := hbounds Width.u64 List.mem_cons_self
    exact hmax.trans (congrArg some hvalue)

end WasmAssembly.Leb128
