import WasmAssembly.Json.Text

/-!
# `WasmAssembly.Json.Reader`: reading JSON from left to right

A reader takes one value of a type from the front of some bytes and gives the bytes after it, or
the fault of the first problem it meets. Three kinds of fault are told apart: the text is no JSON,
the text is JSON of the wrong kind, and the text ends too early. A value that nothing is done with
is passed over by `skipValue`, which looks at its grammar only.
-/

set_option autoImplicit false

namespace WasmAssembly.Json

/-- Why a text could not be read. -/
inductive Fault where
  /-- The text breaks the grammar. -/
  | malformed
  /-- The text is well formed so far, and not what is expected. -/
  | mismatch
  /-- The text ends inside a value. -/
  | truncated
  deriving DecidableEq

/-- Takes a value from the front of some bytes. -/
abbrev Reader (α : Type) := Bytes → Except Fault (α × Bytes)

/-- Space, tab, line feed and carriage return may stand between tokens. -/
def isBlank (b : UInt8) : Bool := b == 0x20 || b == 0x09 || b == 0x0a || b == 0x0d

/-- What is left after leading blanks. -/
def skipBlanks (s : Bytes) : Bytes := s.dropWhile isBlank

/-- Passes over the bytes of a word. -/
def expect : (word : Bytes) → Bytes → Except Fault Bytes
  | [], s => .ok s
  | _ :: _, [] => .error .truncated
  | w :: word, b :: s => if b = w then expect word s else .error .malformed

/-- The words of JSON, each without its first letter. -/
def wordTail (first : UInt8) : Option Bytes :=
  if first = 0x6e then some [0x75, 0x6c, 0x6c]
  else if first = 0x74 then some [0x72, 0x75, 0x65]
  else if first = 0x66 then some [0x61, 0x6c, 0x73, 0x65]
  else none

/-! ### Strings -/

/-- The value of a hexadecimal digit. -/
def hexValue? (b : UInt8) : Option Nat :=
  if 48 ≤ b ∧ b ≤ 57 then some (b.toNat - 48)
  else if 97 ≤ b ∧ b ≤ 102 then some (b.toNat - 87)
  else if 65 ≤ b ∧ b ≤ 70 then some (b.toNat - 55)
  else none

/-- The four hexadecimal digits of an escape. -/
def hexQuad : Bytes → Except Fault Nat
  | a :: b :: c :: d :: _ =>
    match hexValue? a, hexValue? b, hexValue? c, hexValue? d with
    | some a, some b, some c, some d => .ok (((a * 16 + b) * 16 + c) * 16 + d)
    | _, _, _, _ => .error .malformed
  | _ => .error .truncated

/-- The second half of a character outside the first plane: an escape for a low surrogate, of six
bytes. -/
def lowSurrogate : Bytes → Except Fault Nat
  | [] => .error .truncated
  | b :: rest =>
    if b = backslash then
      match rest with
      | [] => .error .truncated
      | c :: rest =>
        if c = letterU then do
          let n ← hexQuad rest
          if 0xdc00 ≤ n ∧ n ≤ 0xdfff then .ok n else .error .malformed
        else .error .malformed
    else .error .malformed

/-- The UTF-8 bytes of an escaped character, given by the bytes after `\u`, and how many of those
belong to it. Surrogates must come in pairs. -/
def unicodeEscape (s : Bytes) : Except Fault (Bytes × Nat) := do
  let n ← hexQuad s
  if 0xdc00 ≤ n ∧ n ≤ 0xdfff then .error .malformed
  else if 0xd800 ≤ n ∧ n ≤ 0xdbff then do
    let low ← lowSurrogate (s.drop 4)
    .ok (String.utf8EncodeChar (Char.ofNat ((n - 0xd800) * 0x400 + (low - 0xdc00) + 0x10000)), 10)
  else .ok (String.utf8EncodeChar (Char.ofNat n), 4)

/-- The UTF-8 bytes of an escape, given by the bytes after the backslash, and how many of those
belong to it. -/
def escape : Bytes → Except Fault (Bytes × Nat)
  | [] => .error .truncated
  | b :: rest =>
    if b = letterU then (unicodeEscape rest).map fun (bytes, read) => (bytes, read + 1)
    else
      match escapeLetters.find? (·.1 == b) with
      | some (_, byte) => .ok ([byte], 1)
      | none => .error .malformed

/-- Reads up to the closing quote of a string, and puts its bytes behind those in `done`, which are
in reverse. -/
def stringBytes (done : Bytes) : Bytes → Except Fault (Bytes × Bytes)
  | [] => .error .truncated
  | b :: rest =>
    if b = quote then .ok (done.reverse, rest)
    else if b = backslash then
      match escape rest with
      | .error fault => .error fault
      | .ok (bytes, read) => stringBytes (bytes.reverse ++ done) (rest.drop read)
    else if b < 0x20 then .error .malformed
    else stringBytes (b :: done) rest
termination_by s => s.length
decreasing_by all_goals simp only [List.length_cons, List.length_drop]; omega

/-- Reads a string after its opening quote. Its bytes must be UTF-8. -/
def stringBody : Reader String := fun s => do
  let (bytes, rest) ← stringBytes [] s
  match Bytes.ofUtf8? bytes with
  | some text => .ok (text, rest)
  | none => .error .malformed

/-- How many of the bytes after a backslash belong to an escape that is passed over. Surrogates
need not come in pairs. -/
def skipEscape : Bytes → Except Fault Nat
  | [] => .error .truncated
  | b :: rest =>
    if b = letterU then (hexQuad rest).map fun _ => 5
    else if escapeLetters.any (·.1 == b) then .ok 1
    else .error .malformed

/-- Passes over a string after its opening quote, whatever its bytes. -/
def skipString : Bytes → Except Fault Bytes
  | [] => .error .truncated
  | b :: rest =>
    if b = quote then .ok rest
    else if b = backslash then
      match skipEscape rest with
      | .error fault => .error fault
      | .ok read => skipString (rest.drop read)
    else if b < 0x20 then .error .malformed
    else skipString rest
termination_by s => s.length
decreasing_by all_goals simp only [List.length_cons, List.length_drop]; omega

/-! ### Values that are passed over -/

/-- What is left after leading digits. -/
def skipDigits (s : Bytes) : Bytes := s.dropWhile Decimal.isDigit

/-- Passes over one or more digits. A number that is passed over may not end before them. -/
def skipDigits1 : Bytes → Except Fault Bytes
  | b :: rest => if Decimal.isDigit b then .ok (skipDigits rest) else .error .malformed
  | [] => .error .malformed

/-- A byte begins an exponent. -/
def isExponentMark (b : UInt8) : Bool := b == 0x65 || b == 0x45

/-- What is left after a sign. -/
def skipSign : Bytes → Bytes
  | b :: rest => if b = 0x2b ∨ b = 0x2d then rest else b :: rest
  | [] => []

/-- Passes over an exponent, if there is one. -/
def skipExponent : Bytes → Except Fault Bytes
  | b :: rest => if isExponentMark b then skipDigits1 (skipSign rest) else .ok (b :: rest)
  | [] => .ok []

/-- Passes over a fraction and an exponent, if they are there. -/
def skipFraction : Bytes → Except Fault Bytes
  | b :: rest =>
    if b = 0x2e then skipDigits1 rest >>= skipExponent else skipExponent (b :: rest)
  | [] => .ok []

/-- Passes over a number after its minus sign. There are no leading zeros. -/
def skipNumber : Bytes → Except Fault Bytes
  | [] => .error .malformed
  | b :: rest =>
    if b = 0x30 then
      match rest with
      | [] => .ok []
      | c :: rest => if Decimal.isDigit c then .error .malformed else skipFraction (c :: rest)
    else if Decimal.isDigit b then skipFraction (skipDigits rest)
    else .error .malformed

/-- Passes over a value that is neither array nor object, given its first byte. -/
def skipScalar (b : UInt8) (rest : Bytes) : Except Fault Bytes :=
  match wordTail b with
  | some word => expect word rest
  | none =>
    if b = quote then skipString rest
    else if b = 0x2d then skipNumber rest
    else if Decimal.isDigit b then skipNumber (b :: rest)
    else .error .malformed

/-- A bracket that is open. -/
inductive Bracket where
  | array
  | object
  deriving DecidableEq

namespace Bracket

/-- The bracket that a byte opens. -/
def ofOpen? (b : UInt8) : Option Bracket :=
  if b = openBracket then some array else if b = openBrace then some object else none

/-- The byte that closes a bracket. -/
def closing : Bracket → UInt8
  | array => closeBracket
  | object => closeBrace

/-- Passes over what stands before a value: in an object, a name and a colon. -/
def skipName : Bracket → Bytes → Except Fault Bytes
  | array, s => .ok s
  | object, s => do
    match skipBlanks s with
    | [] => .error .truncated
    | b :: rest =>
      if b ≠ quote then .error .malformed
      else
        let rest ← skipString rest
        match skipBlanks rest with
        | [] => .error .truncated
        | c :: rest => if c = colon then .ok rest else .error .malformed

end Bracket

/-- Where passing over a value stands. -/
inductive SkipState where
  /-- A value comes next. -/
  | value
  /-- A value has just ended. -/
  | ended

/-- Passes over what stands before the first value in a bracket that has just been opened, or over
the closing byte if there is none. -/
def Bracket.skipOpening (bracket : Bracket) (s : Bytes) : Except Fault (SkipState × Bytes) :=
  match skipBlanks s with
  | [] => .error .truncated
  | b :: rest =>
    if b = bracket.closing then .ok (.ended, rest)
    else (bracket.skipName (b :: rest)).map fun s => (.value, s)

/-- Passes over the rest of a value, given the brackets that are open, the innermost first. Every
step takes a byte, so there are no more steps than bytes in `budget`. -/
def skipFrom : (budget : Bytes) → SkipState → List Bracket → Bytes → Except Fault Bytes
  | _, .ended, [], s => .ok s
  | [], _, _, _ => .error .truncated
  | _ :: budget, .ended, bracket :: outer, s =>
    match skipBlanks s with
    | [] => .error .truncated
    | b :: rest =>
      if b = bracket.closing then skipFrom budget .ended outer rest
      else if b = comma then
        match bracket.skipName rest with
        | .error fault => .error fault
        | .ok s => skipFrom budget .value (bracket :: outer) s
      else .error .malformed
  | _ :: budget, .value, brackets, s =>
    match skipBlanks s with
    | [] => .error .truncated
    | b :: rest =>
      match Bracket.ofOpen? b with
      | some bracket =>
        match bracket.skipOpening rest with
        | .error fault => .error fault
        | .ok (.value, s) => skipFrom budget .value (bracket :: brackets) s
        | .ok (.ended, s) => skipFrom budget .ended brackets s
      | none =>
        match skipScalar b rest with
        | .error fault => .error fault
        | .ok s => skipFrom budget .ended brackets s

/-- Passes over one value. -/
def skipValue (s : Bytes) : Except Fault Bytes := skipFrom s .value [] s

end WasmAssembly.Json
