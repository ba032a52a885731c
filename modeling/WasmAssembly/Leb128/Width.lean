import WasmAssembly.Decimal.Digits

/-!
# `WasmAssembly.Leb128.Width`: the widths of encoded integers

A width is a number of bits from 1 to 128 together with a signedness, written `u32`, `i64` or
`s33`. It bounds the values an integer may take and the number of bytes its encoding may have.
`Error` lists what can go wrong when an integer is encoded or decoded at a width, and `Word` is what
integers of all widths are decoded in.
-/

set_option autoImplicit false

namespace WasmAssembly.Leb128

/-- The widest integer that has an encoding. -/
def maxBits : Nat := 128

/-- A word that holds an integer of any width. Decoders put it together from groups of bits. -/
abbrev Word : Type := BitVec maxBits

/-- The word with a group put in from bit `shift` on. Bits beyond the word are lost. -/
def Word.put (word : Word) (shift group : Nat) : Word :=
  word ||| BitVec.ofNat maxBits group <<< shift

/-- A bit count from 1 to 128, and whether values are read as two's complement. -/
structure Width where
  bits : Nat
  signed : Bool
  one_le_bits : 1 ≤ bits
  bits_le : bits ≤ maxBits
  deriving DecidableEq

namespace Width

/-- The width of counts and indices. -/
def u32 : Width := ⟨32, false, by decide, by decide⟩

/-- The width of the largest unsigned machine word. -/
def u64 : Width := ⟨64, false, by decide, by decide⟩

/-- The width of the smaller integer constants. -/
def i32 : Width := ⟨32, true, by decide, by decide⟩

/-- The width of the larger integer constants. -/
def i64 : Width := ⟨64, true, by decide, by decide⟩

/-- The width of the immediate of a block instruction. -/
def s33 : Width := ⟨33, true, by decide, by decide⟩

/-- The width with the given bit count, if that count is admissible. -/
def ofBits? (bits : Nat) (signed : Bool) : Option Width :=
  if h : 1 ≤ bits ∧ bits ≤ maxBits then some ⟨bits, signed, h.1, h.2⟩ else none

/-- The most bytes an encoding may have: one for every seven bits begun. -/
def maxBytes (w : Width) : Nat :=
  (w.bits + 6) / 7

/-- The largest value, read as an unsigned number. -/
def maxUnsigned (w : Width) : Nat :=
  (1 <<< w.bits) - 1

/-- The number of values that are not negative, read as two's complement. -/
def half (w : Width) : Nat :=
  1 <<< (w.bits - 1)

/-- The smallest value, read as two's complement. -/
def minSigned (w : Width) : Int :=
  -(w.half : Int)

/-- The largest value, read as two's complement. -/
def maxSigned (w : Width) : Int :=
  (w.half : Int) - 1

/-- The letter that stands for a signedness. -/
def letter (signed : Bool) : Char :=
  if signed then 'i' else 'u'

/-- How a bit count and a signedness are written, admissible or not. -/
def describe (bits : Nat) (signed : Bool) : String :=
  (letter signed).toString ++ toString bits

/-- A width as text: `u` or `i`, then the bit count. -/
def text (w : Width) : String :=
  describe w.bits w.signed

/-- The signedness that the first byte of a written width stands for: `u`, or else `i` or `s`. -/
def signedness? (letter : UInt8) : Option Bool :=
  if letter = 0x75 then some false
  else if letter = 0x69 ∨ letter = 0x73 then some true
  else none

/-- The width that a text denotes: the letter `u`, `i` or `s`, then the bit count in one or
more decimal digits. The text is taken byte by byte, and a bit count is a word of 32 bits. -/
def ofText? (text : String) : Option Width :=
  match Bytes.utf8 text with
  | [] => none
  | letter :: digits => do
    let signed ← signedness? letter
    if digits.isEmpty || !digits.all Decimal.isDigit then
      none
    else
      let bits ← Decimal.word? digits
      ofBits? bits.toNat signed

end Width

/-- Why an integer could not be encoded or decoded. -/
inductive Error where
  /-- The text names no width, or one outside 1 to 128 bits. -/
  | malformedWidth (text : String)
  /-- The value, given as text, does not fit the width. -/
  | outOfRange (value : String) (width : Width)
  /-- The last byte has bits beyond the width. -/
  | excessBits (width : Width)
  /-- The encoding is longer than the width allows. -/
  | overlong (width : Width) (max : Nat)
  /-- The input ended before the last byte of the encoding. -/
  | unexpectedEnd (read : Nat)
  deriving DecidableEq

/-- The wording of an error. -/
def Error.message : Error → String
  | .malformedWidth text => s!"malformed integer width `{text}`"
  | .outOfRange value width => s!"value {value} out of range for {width.text}"
  | .excessBits width => s!"encoding sets bits beyond {width.text}"
  | .overlong width max => s!"encoding of {width.text} exceeds {max} bytes"
  | .unexpectedEnd read => s!"unexpected end of input after {read} bytes"

/-- The width with the given bit count, or an error that names the width asked for. -/
def Width.make (bits : Nat) (signed : Bool) : Except Error Width :=
  match ofBits? bits signed with
  | some w => .ok w
  | none => .error (.malformedWidth (describe bits signed))

/-- The width that a text denotes, or an error that holds the text. -/
def Width.parse (text : String) : Except Error Width :=
  match ofText? text with
  | some w => .ok w
  | none => .error (.malformedWidth text)

end WasmAssembly.Leb128
