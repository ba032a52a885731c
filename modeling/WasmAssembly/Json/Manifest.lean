import WasmAssembly.Json.Vocabulary
import WasmAssembly.Manifest

/-!
# `WasmAssembly.Json.Manifest`: manifests in JSON

A manifest travels next to its module as JSON. Its members are written in order; a signature or a
start function that is missing is left out.
-/

set_option autoImplicit false

namespace WasmAssembly

open Json

/-- The members of an import that have been read. -/
structure ImportEntry.Collected where
  scope : Option String
  name : Option String
  kind : Option ExternalKind
  index : Option UInt32
  signature : Option (Option FuncType)

/-- The shape of an import. -/
def ImportEntry.shape : Shape ImportEntry.Collected ImportEntry where
  members :=
    [member "namespace" (·.scope) fun state scope => { state with scope := some scope },
      member "name" (·.name) fun state name => { state with name := some name },
      member "kind" (·.kind) fun state kind => { state with kind := some kind },
      member "index" (·.index) fun state index => { state with index := some index },
      nullableMember "signature" (·.signature) fun state signature =>
        { state with signature := some signature }]
  start := ⟨none, none, none, none, none⟩
  finish state := do
    return ⟨← state.scope, ← state.name, ← state.kind, ← state.index, state.signature.getD none⟩

instance : JsonFormat ImportEntry where
  reader := ImportEntry.shape.reader
  write e :=
    object
      ([("namespace", write e.scope), ("name", write e.name), ("kind", write e.kind),
          ("index", write e.index)] ++
        optionalMember "signature" (e.signature.map write))

/-- The members of an export that have been read. -/
structure ExportEntry.Collected where
  name : Option String
  kind : Option ExternalKind
  index : Option UInt32

/-- The shape of an export. -/
def ExportEntry.shape : Shape ExportEntry.Collected ExportEntry where
  members :=
    [member "name" (·.name) fun state name => { state with name := some name },
      member "kind" (·.kind) fun state kind => { state with kind := some kind },
      member "index" (·.index) fun state index => { state with index := some index }]
  start := ⟨none, none, none⟩
  finish state := do return ⟨← state.name, ← state.kind, ← state.index⟩

instance : JsonFormat ExportEntry where
  reader := ExportEntry.shape.reader
  write e := object [("name", write e.name), ("kind", write e.kind), ("index", write e.index)]

/-- The members of a manifest that have been read. -/
structure Manifest.Collected where
  imports : Option (List ImportEntry)
  exports : Option (List ExportEntry)
  start : Option (Option UInt32)

/-- The shape of a manifest. -/
def Manifest.shape : Shape Manifest.Collected Manifest where
  members :=
    [member "imports" (·.imports) fun state imports => { state with imports := some imports },
      member "exports" (·.exports) fun state exports => { state with exports := some exports },
      nullableMember "start" (·.start) fun state start => { state with start := some start }]
  start := ⟨none, none, none⟩
  finish state := do return ⟨← state.imports, ← state.exports, state.start.getD none⟩

instance : JsonFormat Manifest where
  reader := Manifest.shape.reader
  write m :=
    object
      ([("imports", write m.imports), ("exports", write m.exports)] ++
        optionalMember "start" (m.start.map write))

namespace Manifest

/-- The JSON form of a manifest. -/
def toJson (manifest : Manifest) : Bytes := write manifest

/-- The manifest that a text denotes. -/
def ofJson (s : Bytes) : Except Fault Manifest := Json.read s

end Manifest

end WasmAssembly
