import WasmAssembly.Json.Number

/-!
# `WasmAssembly.Json.Value`: reading values of a known type

A reader that meets a value of another kind reports a mismatch, after reading the value if it is
neither array nor object. An object of a known shape is read by its `Shape`: its members may come
in any order, each at most once, and unknown ones are passed over; it may also be given as the array
of its members' values in order. A value of an enumerated type is given by its name, or by an object
with the name as its one member.
-/

set_option autoImplicit false

namespace WasmAssembly.Json

/-- The fault of an outcome, or a mismatch if there is none. -/
def faultOrMismatch {α : Type} : Except Fault α → Fault
  | .error fault => fault
  | .ok _ => .mismatch

/-- The fault of meeting a value that begins with `b` where another kind of value is expected. -/
def unexpected (b : UInt8) (rest : Bytes) : Fault :=
  match wordTail b with
  | some word => faultOrMismatch (expect word rest)
  | none =>
    if startsNumber b then faultOrMismatch (readNumber b rest)
    else if b = quote then faultOrMismatch (stringBody rest)
    else if (Bracket.ofOpen? b).isSome then .mismatch
    else .malformed

/-- Reads a number that stands for a value of a type. -/
def number {α : Type} (make : Number → Option α) : Reader α := fun s =>
  match skipBlanks s with
  | [] => .error .truncated
  | b :: rest =>
    if startsNumber b then
      match readNumber b rest with
      | .error fault => .error fault
      | .ok (n, rest) =>
        match make n with
        | some a => .ok (a, rest)
        | none => .error .mismatch
    else .error (unexpected b rest)

/-- Reads a string. -/
def text : Reader String := fun s =>
  match skipBlanks s with
  | [] => .error .truncated
  | b :: rest => if b = quote then stringBody rest else .error (unexpected b rest)

/-- Reads a truth value. -/
def boolean : Reader Bool := fun s =>
  match skipBlanks s with
  | [] => .error .truncated
  | b :: rest =>
    if b = 0x74 ∨ b = 0x66 then
      (expect ((wordTail b).getD []) rest).map fun rest => (b == 0x74, rest)
    else .error (unexpected b rest)

/-- Reads the word for no value. -/
def noValue : Reader Unit := fun s =>
  match skipBlanks s with
  | [] => .error .truncated
  | b :: rest =>
    if b = 0x6e then (expect ((wordTail b).getD []) rest).map fun rest => ((), rest)
    else .error (unexpected b rest)

/-- Reads a value that may be missing. -/
def nullable {α : Type} (item : Reader α) : Reader (Option α) := fun s =>
  if (skipBlanks s).head? = some 0x6e then
    (noValue s).map fun (_, rest) => (none, rest)
  else
    (item s).map fun (a, rest) => (some a, rest)

/-! ### Arrays -/

/-- What is left from the next item of an array, or nothing if the array ends here. -/
def nextItem (isFirst : Bool) (s : Bytes) : Except Fault (Option Bytes) :=
  match skipBlanks s with
  | [] => .error .truncated
  | b :: rest =>
    if b = closeBracket then .ok none
    else if isFirst then .ok (some (b :: rest))
    else if b = comma then
      match skipBlanks rest with
      | [] => .error .truncated
      | c :: rest => if c = closeBracket then .error .malformed else .ok (some (c :: rest))
    else .error .malformed

/-- Reads the items of an array up to its end, and puts them behind those in `done`, which are in
reverse. Every item takes a byte, so there are no more items than bytes in `budget`. -/
def items {α : Type} (item : Reader α) :
    (budget : Bytes) → (isFirst : Bool) → (done : List α) → Reader (List α)
  | [], _, _, _ => .error .truncated
  | _ :: budget, isFirst, done, s =>
    match nextItem isFirst s with
    | .error fault => .error fault
    | .ok none => .ok (done.reverse, s)
    | .ok (some s) =>
      match item s with
      | .error fault => .error fault
      | .ok (a, s) => items item budget false (a :: done) s

/-- Passes over the end of an array. Anything else there is one item too many. -/
def arrayEnd (s : Bytes) : Except Fault Bytes :=
  match skipBlanks s with
  | [] => .error .truncated
  | b :: rest => if b = closeBracket then .ok rest else .error .malformed

/-- Reads an array. -/
def arrayOf {α : Type} (item : Reader α) : Reader (List α) := fun s =>
  match skipBlanks s with
  | [] => .error .truncated
  | b :: rest =>
    if b = openBracket then do
      let (items, rest) ← items item rest true [] rest
      let rest ← arrayEnd rest
      .ok (items, rest)
    else .error (unexpected b rest)

/-! ### Objects of a known shape -/

/-- A member of an object whose values are collected in a `σ`. -/
structure Member (σ : Type) where
  name : String
  /-- The member has been read. -/
  isSet : σ → Bool
  /-- Reads the value of the member into what has been collected. -/
  read : σ → Reader σ

/-- How an object that stands for an `α` is read. -/
structure Shape (σ α : Type) where
  members : List (Member σ)
  /-- No member has been read. -/
  start : σ
  /-- The value that the members make, if none is missing. -/
  finish : σ → Option α

/-- Passes over the colon between a name and its value. -/
def colonAfterName (s : Bytes) : Except Fault Bytes :=
  match skipBlanks s with
  | [] => .error .truncated
  | b :: rest => if b = colon then .ok rest else .error .malformed

/-- Reads the values of members in order, as far as the array has any. -/
def memberItems {σ : Type} : List (Member σ) → (isFirst : Bool) → σ → Reader σ
  | [], _, state, s => .ok (state, s)
  | member :: members, isFirst, state, s =>
    match nextItem isFirst s with
    | .error fault => .error fault
    | .ok none => .ok (state, s)
    | .ok (some s) =>
      match member.read state s with
      | .error fault => .error fault
      | .ok (state, s) => memberItems members false state s

/-- Reads a name in an object, with no blanks before it. -/
def memberName : Reader String
  | [] => .error .truncated
  | b :: rest => if b = quote then stringBody rest else .error .malformed

/-- The name of the next member of an object and what is left after it, or nothing if the object
ends here. -/
def nextName (isFirst : Bool) (s : Bytes) : Except Fault (Option (String × Bytes)) :=
  match skipBlanks s with
  | [] => .error .truncated
  | b :: rest =>
    if b = closeBrace then .ok none
    else if isFirst then (memberName (b :: rest)).map some
    else if b = comma then (memberName (skipBlanks rest)).map some
    else .error .malformed

/-- Reads one member, given its name; one that is not known is passed over. -/
def memberValue {σ : Type} (members : List (Member σ)) (name : String) (state : σ) : Reader σ :=
  fun s =>
    match members.find? (·.name == name) with
    | some member =>
      if member.isSet state then .error .mismatch
      else colonAfterName s >>= member.read state
    | none => (colonAfterName s >>= skipValue).map fun s => (state, s)

/-- Reads the members of an object up to its end. Every member takes a byte, so there are no more
members than bytes in `budget`. -/
def membersFrom {σ : Type} (members : List (Member σ)) :
    (budget : Bytes) → (isFirst : Bool) → σ → Reader σ
  | [], _, _, _ => .error .truncated
  | _ :: budget, isFirst, state, s =>
    match nextName isFirst s with
    | .error fault => .error fault
    | .ok none => .ok (state, s)
    | .ok (some (name, s)) =>
      match memberValue members name state s with
      | .error fault => .error fault
      | .ok (state, s) => membersFrom members budget false state s

/-- Passes over the end of an object. -/
def objectEnd (s : Bytes) : Except Fault Bytes :=
  match skipBlanks s with
  | [] => .error .truncated
  | b :: rest => if b = closeBrace then .ok rest else .error .malformed

/-- The value that the members make, or a mismatch if one is missing. -/
def Shape.complete {σ α : Type} (shape : Shape σ α) (state : σ) : Except Fault α :=
  match shape.finish state with
  | some a => .ok a
  | none => .error .mismatch

/-- Reads an object of a known shape, or the array of its members' values. -/
def Shape.reader {σ α : Type} (shape : Shape σ α) : Reader α := fun s =>
  match skipBlanks s with
  | [] => .error .truncated
  | b :: rest =>
    if b = openBracket then do
      let (state, rest) ← memberItems shape.members true shape.start rest
      let a ← shape.complete state
      let rest ← arrayEnd rest
      .ok (a, rest)
    else if b = openBrace then do
      let (state, rest) ← membersFrom shape.members rest true shape.start rest
      let a ← shape.complete state
      let rest ← objectEnd rest
      .ok (a, rest)
    else .error (unexpected b rest)

/-! ### Enumerated types -/

/-- What stands behind a name of an enumerated type. -/
inductive Variant (α : Type) where
  /-- The name alone is the value. -/
  | bare (a : α)
  /-- The name comes with a value that is read by `content`. -/
  | carrying (content : Reader α)

/-- What stands behind a name, or a mismatch if there is no such name. -/
def variantOf {α : Type} (variants : List (String × Variant α)) (name : String) :
    Except Fault (Variant α) :=
  match variants.find? (·.1 == name) with
  | some (_, variant) => .ok variant
  | none => .error .mismatch

/-- Reads a value of an enumerated type: a name, or an object with the name as its one member. -/
def oneOf {α : Type} (variants : List (String × Variant α)) : Reader α := fun s =>
  match skipBlanks s with
  | [] => .error .truncated
  | b :: rest =>
    if b = quote then do
      let (name, rest) ← stringBody rest
      match ← variantOf variants name with
      | .bare a => .ok (a, rest)
      | .carrying _ => .error .mismatch
    else if b = openBrace then do
      let (name, rest) ← memberName (skipBlanks rest)
      let variant ← variantOf variants name
      let rest ← colonAfterName rest
      let (a, rest) ←
        match variant with
        | .bare a => (noValue rest).map fun (_, rest) => (a, rest)
        | .carrying content => content rest
      match skipBlanks rest with
      | [] => .error .truncated
      | c :: rest => if c = closeBrace then .ok (a, rest) else .error .malformed
    else .error .malformed

/-- Reads a text that consists of one value. -/
def parse {α : Type} (reader : Reader α) (s : Bytes) : Except Fault α := do
  let (a, rest) ← reader s
  match skipBlanks rest with
  | [] => .ok a
  | _ :: _ => .error .malformed

end WasmAssembly.Json
