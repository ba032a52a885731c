import WasmAssembly.Decimal.Digits

/-!
# `WasmAssembly.Json.Text`: writing JSON

JSON is written without blanks. In strings, quotes, backslashes and the bytes below 0x20 are
escaped, by a letter where there is one; all else stands for itself.
-/

set_option autoImplicit false

namespace WasmAssembly.Json

/-- The quotation mark, at both ends of a string. -/
def quote : UInt8 := 0x22

/-- The backslash, in front of an escape. -/
def backslash : UInt8 := 0x5c

/-- The comma, between items. -/
def comma : UInt8 := 0x2c

/-- The colon, between a name and its value. -/
def colon : UInt8 := 0x3a

/-- The bracket that opens an array. -/
def openBracket : UInt8 := 0x5b

/-- The bracket that closes an array. -/
def closeBracket : UInt8 := 0x5d

/-- The brace that opens an object. -/
def openBrace : UInt8 := 0x7b

/-- The brace that closes an object. -/
def closeBrace : UInt8 := 0x7d

/-- The letter of an escape that gives a code in hexadecimal. -/
def letterU : UInt8 := 0x75

/-- The letters that escape a byte after a backslash, and the bytes they stand for. -/
def escapeLetters : List (UInt8 × UInt8) :=
  [(quote, quote), (backslash, backslash), (0x2f, 0x2f), (0x62, 0x08), (0x66, 0x0c), (0x6e, 0x0a),
    (0x72, 0x0d), (0x74, 0x09)]

/-- The hexadecimal digit of a number below 16. -/
def hexDigit (n : Nat) : UInt8 :=
  UInt8.ofNat (if n < 10 then 48 + n else 87 + n)

/-- A byte as it stands in a string. -/
def escapeByte (b : UInt8) : Bytes :=
  if b = quote ∨ b = backslash then [backslash, b]
  else if 0x20 ≤ b then [b]
  else
    match escapeLetters.find? (·.2 == b) with
    | some (letter, _) => [backslash, letter]
    | none =>
      [backslash, letterU, hexDigit 0, hexDigit 0, hexDigit (b.toNat / 16), hexDigit (b.toNat % 16)]

/-- A string in quotes. -/
def string (text : String) : Bytes :=
  quote :: (Bytes.utf8 text).flatMap escapeByte ++ [quote]

/-- A number that is not negative. -/
def nat (n : Nat) : Bytes := Decimal.digits n

/-- Items with commas between them. -/
def commaSeparated : List Bytes → Bytes
  | [] => []
  | item :: items => item ++ items.flatMap (comma :: ·)

/-- An array of written values. -/
def array (items : List Bytes) : Bytes :=
  openBracket :: commaSeparated items ++ [closeBracket]

/-- An object of written values with their names. -/
def object (members : List (String × Bytes)) : Bytes :=
  openBrace :: commaSeparated (members.map fun (name, value) => string name ++ colon :: value) ++
    [closeBrace]

/-- The member for a value that may be missing. -/
def optionalMember (name : String) : Option Bytes → List (String × Bytes)
  | none => []
  | some value => [(name, value)]

end WasmAssembly.Json
