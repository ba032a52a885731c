import WasmAssembly.Vocabulary.ValType

/-!
# `WasmAssembly.Vocabulary.Entity`: tables, memories and globals

The four kinds of entity that a module imports, defines and exports, and the types of three of
them; the fourth kind, functions, is typed by signatures.
-/

set_option autoImplicit false

namespace WasmAssembly

/-- The kinds of entity. Each kind is numbered on its own, from 0. -/
inductive ExternalKind where
  | func
  | table
  | memory
  | global
  deriving DecidableEq, Inhabited

namespace ExternalKind

/-- Every kind. -/
def all : List ExternalKind := [func, table, memory, global]

/-- The byte that stands for a kind. -/
def code : ExternalKind → UInt8
  | func => 0
  | table => 1
  | memory => 2
  | global => 3

/-- The kind that a byte stands for. -/
def ofCode? (code : UInt8) : Option ExternalKind :=
  all.find? (·.code == code)

/-- The code of a kind tells the kind. -/
theorem ofCode?_code (k : ExternalKind) : ofCode? k.code = some k := by
  cases k <;> rfl

/-- The short name of a kind, used in JSON. -/
def name : ExternalKind → String
  | func => "func"
  | table => "table"
  | memory => "memory"
  | global => "global"

/-- The word for a kind in messages. -/
def noun : ExternalKind → String
  | func => "function"
  | table => "table"
  | memory => "memory"
  | global => "global"

instance : Encode ExternalKind where
  encode b k := b.byte k.code

end ExternalKind

/-- The smallest size of a table or memory, and its largest if there is one. -/
structure Limits where
  min : UInt32
  max : Option UInt32
  deriving DecidableEq, Inhabited

namespace Limits

/-- The largest size, if any, is not below the smallest. -/
def isOrdered (l : Limits) : Bool := l.max.all (l.min ≤ ·)

/-- Both sizes are at most `cap`. -/
def isWithin (l : Limits) (cap : UInt32) : Bool := l.min ≤ cap && l.max.all (· ≤ cap)

/-- A largest size as text. -/
def maxText : Option UInt32 → String
  | none => "None"
  | some max => s!"Some({max})"

/-- Limits as text, for records. -/
def text (l : Limits) : String :=
  s!"Limits \x7b min: {l.min}, max: {maxText l.max} \x7d"

instance : Encode Limits where
  encode b l :=
    match l.max with
    | none => (b.byte 0).u32 l.min
    | some max => ((b.byte 1).u32 l.min).u32 max

end Limits

/-- What a table holds, and its size. -/
structure TableType where
  element : RefType
  limits : Limits
  deriving DecidableEq, Inhabited

instance : Encode TableType where
  encode b t := encode (encode b t.element) t.limits

/-- What a global holds, and whether it can be set. -/
structure GlobalType where
  valType : ValType
  isMutable : Bool
  deriving DecidableEq, Inhabited

instance : Encode GlobalType where
  encode b t := (encode b t.valType).byte (if t.isMutable then 1 else 0)

end WasmAssembly
