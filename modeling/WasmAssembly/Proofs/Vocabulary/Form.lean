import WasmAssembly.Proofs.Bytes.Encode
import WasmAssembly.Vocabulary.ConstExpr

/-!
# `WasmAssembly.Proofs.Vocabulary.Form`: the binary forms of the vocabulary

What the values of each type of the format are as bytes, written down as lists. For each type
`encode_form` says what a value appends, whatever stands before it. That makes the type lawful and
gives the equation for `toBytes` that later proofs rewrite with.

Signatures are prefix-free, for lists of parameters and results of every length. So two signatures
with one binary form are the same signature (`FuncType.toBytes_injective`).
-/

set_option autoImplicit false

namespace WasmAssembly

/-! ### Value types and signatures -/

namespace ValType

/-- A value type is written as its code. -/
theorem encode_form (b : Buffer) (t : ValType) : (encode b t).toList = b.toList ++ [t.code] :=
  Buffer.toList_byte b t.code

instance : LawfulEncode ValType := .of_form encode_form

/-- The byte of a value type is its code. -/
@[simp]
theorem toBytes_eq (t : ValType) : toBytes t = [t.code] :=
  toBytes_of_form encode_form t

/-- Value types with the same code are the same. -/
theorem code_injective {s t : ValType} (h : s.code = t.code) : s = t := by
  have hs := ofCode?_code s
  rw [h, ofCode?_code t] at hs
  exact (Option.some.inj hs).symm

instance : PrefixFree ValType where
  append_inj a b s t h := by
    rw [toBytes_eq, toBytes_eq, List.singleton_append, List.singleton_append] at h
    obtain ⟨hcode, hrest⟩ := List.cons_eq_cons.mp h
    exact ⟨code_injective hcode, hrest⟩

end ValType

namespace RefType

/-- A reference type is written as the code of the value type that it is. -/
theorem encode_form (b : Buffer) (t : RefType) :
    (encode b t).toList = b.toList ++ [t.toValType.code] :=
  ValType.encode_form b t.toValType

instance : LawfulEncode RefType := .of_form encode_form

/-- The byte of a reference type is the code of the value type that it is. -/
@[simp]
theorem toBytes_eq (t : RefType) : toBytes t = [t.toValType.code] :=
  toBytes_of_form encode_form t

end RefType

namespace FuncType

/-- A signature is written as its marker, its parameters and its results. -/
theorem encode_form (b : Buffer) (t : FuncType) :
    (encode b t).toList
      = b.toList ++ (marker :: (vectorBytes t.params ++ vectorBytes t.results)) := by
  show (((b.byte marker).vector t.params).vector t.results).toList = _
  rw [Buffer.toList_vector, Buffer.toList_vector, Buffer.toList_byte, List.append_assoc,
    List.append_assoc, List.singleton_append]

instance : LawfulEncode FuncType := .of_form encode_form

/-- The bytes of a signature are those of its parts. -/
theorem toBytes_eq (t : FuncType) :
    toBytes t = marker :: (vectorBytes t.params ++ vectorBytes t.results) :=
  toBytes_of_form encode_form t

instance : PrefixFree FuncType where
  append_inj a b s t h := by
    rw [toBytes_eq, toBytes_eq, List.cons_append, List.cons_append, List.append_assoc,
      List.append_assoc] at h
    -- The parameters end where their number says, and the results begin there.
    obtain ⟨hparams, hbehind⟩ := vectorBytes_append_inj (List.cons_eq_cons.mp h).2
    obtain ⟨hresults, hrest⟩ := vectorBytes_append_inj hbehind
    cases a
    cases b
    rw [FuncType.mk.injEq]
    exact ⟨⟨hparams, hresults⟩, hrest⟩

/-- Signatures with the same binary form are the same. -/
theorem toBytes_injective {s t : FuncType} (h : toBytes s = toBytes t) : s = t :=
  PrefixFree.toBytes_injective h

end FuncType

/-! ### Entities -/

namespace ExternalKind

/-- A kind is written as its code. -/
theorem encode_form (b : Buffer) (k : ExternalKind) :
    (encode b k).toList = b.toList ++ [k.code] :=
  Buffer.toList_byte b k.code

instance : LawfulEncode ExternalKind := .of_form encode_form

/-- The byte of a kind is its code. -/
@[simp]
theorem toBytes_eq (k : ExternalKind) : toBytes k = [k.code] :=
  toBytes_of_form encode_form k

end ExternalKind

namespace Limits

/-- A flag tells whether a largest size follows the smallest. -/
def form (l : Limits) : Bytes :=
  match l.max with
  | none => 0 :: Leb128.unsigned l.min.toNat
  | some max => 1 :: (Leb128.unsigned l.min.toNat ++ Leb128.unsigned max.toNat)

/-- Limits are written in the form that says whether there is a largest size. -/
theorem encode_form (b : Buffer) (l : Limits) : (encode b l).toList = b.toList ++ l.form := by
  obtain ⟨min, max⟩ := l
  cases max with
  | none =>
      show ((b.byte 0).u32 min).toList = b.toList ++ 0 :: Leb128.unsigned min.toNat
      rw [Buffer.toList_u32, Buffer.toList_byte, List.append_assoc, List.singleton_append]
  | some max =>
      show (((b.byte 1).u32 min).u32 max).toList
        = b.toList ++ 1 :: (Leb128.unsigned min.toNat ++ Leb128.unsigned max.toNat)
      rw [Buffer.toList_u32, Buffer.toList_u32, Buffer.toList_byte, List.append_assoc,
        List.append_assoc, List.singleton_append]

instance : LawfulEncode Limits := .of_form encode_form

/-- The bytes of limits are those of their form. -/
theorem toBytes_eq (l : Limits) : toBytes l = l.form :=
  toBytes_of_form encode_form l

end Limits

namespace TableType

/-- The type of a table is written as what it holds and its size. -/
theorem encode_form (b : Buffer) (t : TableType) :
    (encode b t).toList = b.toList ++ (toBytes t.element ++ toBytes t.limits) := by
  show (encode (encode b t.element) t.limits).toList = _
  rw [toList_encode, toList_encode, List.append_assoc]

instance : LawfulEncode TableType := .of_form encode_form

/-- The bytes of the type of a table are those of what it holds and of its size. -/
theorem toBytes_eq (t : TableType) : toBytes t = toBytes t.element ++ toBytes t.limits :=
  toBytes_of_form encode_form t

end TableType

namespace GlobalType

/-- The byte that tells whether a global can be set. -/
def mutability (t : GlobalType) : UInt8 :=
  if t.isMutable then 1 else 0

/-- The type of a global is written as the type of its value and whether it can be set. -/
theorem encode_form (b : Buffer) (t : GlobalType) :
    (encode b t).toList = b.toList ++ (toBytes t.valType ++ [t.mutability]) := by
  show ((encode b t.valType).byte t.mutability).toList = _
  rw [Buffer.toList_byte, toList_encode, List.append_assoc]

instance : LawfulEncode GlobalType := .of_form encode_form

/-- The bytes of the type of a global are those of its parts. -/
theorem toBytes_eq (t : GlobalType) : toBytes t = toBytes t.valType ++ [t.mutability] :=
  toBytes_of_form encode_form t

end GlobalType

/-! ### Constant expressions -/

namespace ConstExpr

/-- The opcode of the one instruction of an expression. -/
def opcode : ConstExpr → UInt8
  | i32 _ => 0x41
  | i64 _ => 0x42
  | f32 _ => 0x43
  | f64 _ => 0x44
  | globalGet _ => 0x23
  | refNull _ => 0xd0
  | refFunc _ => 0xd2

/-- The immediate of that instruction. -/
def immediate : ConstExpr → Bytes
  | i32 value => Leb128.signed value.toInt
  | i64 value => Leb128.signed value.toInt
  | f32 pattern => Bytes.littleEndian 4 pattern.toNat
  | f64 pattern => Bytes.littleEndian 8 pattern.toNat
  | globalGet index => Leb128.unsigned index.toNat
  | refNull type => toBytes type
  | refFunc index => Leb128.unsigned index.toNat

/-- The instruction of a constant expression is written as its opcode and its immediate. -/
theorem toList_encodeInstr (b : Buffer) (e : ConstExpr) :
    (encodeInstr b e).toList = b.toList ++ e.opcode :: e.immediate := by
  cases e <;>
    simp only [encodeInstr, opcode, immediate, Buffer.toList_i32, Buffer.toList_i64,
      Buffer.toList_f32, Buffer.toList_f64, Buffer.toList_u32, toList_encode, Buffer.toList_byte,
      List.append_assoc, List.singleton_append]

/-- A constant expression is written as its instruction and the end marker. -/
theorem encode_form (b : Buffer) (e : ConstExpr) :
    (encode b e).toList = b.toList ++ (e.opcode :: (e.immediate ++ [endMarker])) := by
  show ((encodeInstr b e).byte endMarker).toList = _
  rw [Buffer.toList_byte, toList_encodeInstr, List.append_assoc, List.cons_append]

instance : LawfulEncode ConstExpr := .of_form encode_form

/-- The bytes of a constant expression are those of its instruction and the end marker. -/
theorem toBytes_eq (e : ConstExpr) : toBytes e = e.opcode :: (e.immediate ++ [endMarker]) :=
  toBytes_of_form encode_form e

end ConstExpr

end WasmAssembly
