import WasmAssembly.Module.Declare
import WasmAssembly.Module.Layout
import WasmAssembly.Validation.Body

/-!
# `WasmAssembly.Validation.Module`: the validity of modules

What declarations check as they are made is not checked again. `Module.validate` checks the rest:
the bodies, and the sizes that implementations agree on. `Module.executable` gives the bytes of a
valid module.
-/

set_option autoImplicit false

namespace WasmAssembly.Validation

/-- The most parameters, and the most results, of a signature. -/
def maxArity : Nat := 1000

/-- The most locals of a function, parameters included. -/
def maxLocals : Nat := 50000

/-- The most tables, imported or defined. -/
def maxTables : Nat := 100

/-- The most bytes of a name. -/
def maxNameSize : Nat := 100000

/-- A signature is not too long. -/
def checkSignature (type : FuncType) : Except Fault Unit :=
  if maxArity < type.params.length then .error (.tooManyParams type.params.length)
  else if maxArity < type.results.length then .error (.tooManyResults type.results.length)
  else .ok ()

/-- A name is not too long. -/
def checkName (name : String) : Except Fault Unit :=
  if name.utf8ByteSize ≤ maxNameSize then .ok () else .error (.nameTooLong name.utf8ByteSize)

/-- A function has not too many locals, and a body that is well typed. -/
def checkFunction (env : Environment) (f : Function) : Except Fault Unit := do
  let type ← env.signature f.typeIndex
  let count := Module.localCount type f.locals
  if maxLocals < count then .error (.tooManyLocals count)
  else
    let declared := f.locals.flatMap fun run => List.replicate run.count.toNat run.type
    checkBody env type.results (type.params ++ declared).toArray f.body

/-- Every item passes a check, or the first that does not tells why. -/
def checkEach {α : Type} (check : α → Except Fault Unit) : List α → Except Fault Unit
  | [] => .ok ()
  | a :: rest =>
    match check a with
    | .error fault => .error fault
    | .ok () => checkEach check rest

end WasmAssembly.Validation

namespace WasmAssembly.Module

open Validation

/-- The module is valid. -/
def validate (m : Module) : Except Fault Unit := do
  checkEach checkSignature m.types.toList
  checkEach (fun i => do checkName i.scope; checkName i.name) m.imports.toList
  if maxTables < m.count .table then .error (.tooManyTables (m.count .table))
  checkEach (checkName ·.name) m.exports.toList
  checkEach (Validation.checkFunction (Environment.ofModule m)) m.functions.toList
  checkEach (checkName ·.name) m.customs.toList

/-- The bytes of the module, if it is valid. -/
def executable (m : Module) : Except ModuleError Bytes :=
  match m.validate with
  | .ok () => .ok m.serialize
  | .error fault => .error (.validationFailed fault.message)

end WasmAssembly.Module
