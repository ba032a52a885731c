import WasmAssembly.Bytes
import WasmAssembly.Bytes.Buffer
import WasmAssembly.Bytes.Encode
import WasmAssembly.Bytes.Take
import WasmAssembly.Bytes.Template
import WasmAssembly.Decimal.BinaryFormat
import WasmAssembly.Decimal.Digits
import WasmAssembly.Decimal.Scaled
import WasmAssembly.Decimal.Shortest
import WasmAssembly.Instr.Basic
import WasmAssembly.Instr.Decode
import WasmAssembly.Instr.Numeric
import WasmAssembly.Json.Manifest
import WasmAssembly.Json.Number
import WasmAssembly.Json.Reader
import WasmAssembly.Json.Text
import WasmAssembly.Json.Value
import WasmAssembly.Json.Vocabulary
import WasmAssembly.Leb128.Signed
import WasmAssembly.Leb128.Unsigned
import WasmAssembly.Leb128.Width
import WasmAssembly.Manifest
import WasmAssembly.Module.Basic
import WasmAssembly.Module.Declare
import WasmAssembly.Module.Error
import WasmAssembly.Module.Layout
import WasmAssembly.Module.Record
import WasmAssembly.Module.Session
import WasmAssembly.TypeTable
import WasmAssembly.Validation.Body
import WasmAssembly.Validation.Fault
import WasmAssembly.Validation.Module
import WasmAssembly.Validation.Stack
import WasmAssembly.Vocabulary.ConstExpr
import WasmAssembly.Vocabulary.Entity
import WasmAssembly.Vocabulary.SectionId
import WasmAssembly.Vocabulary.ValType
import WasmAssembly.Proofs.Leb128.Signed
import WasmAssembly.Proofs.Leb128.Groups
import WasmAssembly.Proofs.Leb128.Decoding
import WasmAssembly.Proofs.Leb128.Checked
import WasmAssembly.Proofs.Leb128.Canonical
import WasmAssembly.Proofs.Leb128.MachineWord
import WasmAssembly.Proofs.Leb128.WordDecoder
import WasmAssembly.Proofs.Bytes.Ascii
import WasmAssembly.Proofs.Bytes.Buffer
import WasmAssembly.Proofs.Bytes.Writers
import WasmAssembly.Proofs.Bytes.Encode
import WasmAssembly.Proofs.Leb128.WidthText
import WasmAssembly.Proofs.Vocabulary.Form
import WasmAssembly.Proofs.Reading.Reader
import WasmAssembly.Proofs.Reading.Vocabulary
import WasmAssembly.Proofs.Checks
import WasmAssembly.Proofs.Module.Admissible
import WasmAssembly.Proofs.Module.Rules
import WasmAssembly.Proofs.Module.Additions
import WasmAssembly.Proofs.Module.Run
import WasmAssembly.Proofs.Module.Growth
import WasmAssembly.Proofs.Module.WellFormed
import WasmAssembly.Proofs.Module.Resolve
import WasmAssembly.Proofs.Module.Indices
import WasmAssembly.Proofs.Module.Session
import WasmAssembly.Proofs.Module.Batch
import WasmAssembly.Proofs.Module.ImplicitExport
import WasmAssembly.Proofs.Module.Intact
import WasmAssembly.Proofs.Module.Refusal
import WasmAssembly.Proofs.Module.Form
import WasmAssembly.Proofs.Reading.Entries
import WasmAssembly.Proofs.Reading.Contents
import WasmAssembly.Proofs.Module.Trace
import WasmAssembly.Proofs.Module.Calls
import WasmAssembly.Proofs.Module.Log
import WasmAssembly.Proofs.Module.ExportLookup
import WasmAssembly.Proofs.Reading.Recovery
import WasmAssembly.Proofs.Reading.Manifest
import WasmAssembly.Proofs.Reading.Framing
import WasmAssembly.Proofs.Module.Limit
import WasmAssembly.Proofs.Reading.Lengths
import WasmAssembly.Proofs.TypeTable.Numbering
import WasmAssembly.Proofs.Module.ByTypeIndex
import WasmAssembly.Proofs.Instr.Form
import WasmAssembly.Proofs.Reading.Instr
import WasmAssembly.Proofs.Reading.PrefixFree
import WasmAssembly.Proofs.Module.Footprint
import WasmAssembly.Proofs.Module.Commute
import WasmAssembly.Proofs.Json.Text
import WasmAssembly.Proofs.Json.Value
import WasmAssembly.Proofs.Json.Manifest
