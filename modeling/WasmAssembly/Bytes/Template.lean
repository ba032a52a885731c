import WasmAssembly.Bytes.Buffer

/-!
# `WasmAssembly.Bytes.Template`: bytes put together from parts

A template is a list of parts: single bytes, text, buffers, and lists of parts nested to any
depth. It is flattened from left to right, with no length in front of anything.
-/

set_option autoImplicit false

namespace WasmAssembly

/-- A part of a template. -/
inductive Template where
  | byte (x : UInt8)
  /-- Text contributes its UTF-8 bytes. -/
  | text (s : String)
  | buffer (b : Buffer)
  | list (parts : List Template)

namespace Buffer

mutual

/-- Writes a part, flattened. -/
def splice (b : Buffer) : Template → Buffer
  | .byte x => b.byte x
  | .text s => b.append (Bytes.utf8 s)
  | .buffer c => b.append c.toList
  | .list parts => b.spliceAll parts

/-- Writes parts in order, flattened. -/
def spliceAll (b : Buffer) : List Template → Buffer
  | [] => b
  | part :: parts => (b.splice part).spliceAll parts

end

end Buffer

/-- The bytes of a template. -/
def Template.flatten (parts : List Template) : Bytes :=
  (Buffer.empty.spliceAll parts).toList

end WasmAssembly
