import WasmAssembly.Instr.Decode
import WasmAssembly.Proofs.Instr.Form
import WasmAssembly.Proofs.Reading.Reader

/-!
# `WasmAssembly.Proofs.Reading.Instr`: reading instructions back

A stream of instructions is read with nothing between them, so each must say by its first byte where
it ends. `reads_instr` says that it does: `Instr.decode?` finds an instruction in its bytes whatever
comes behind them. The opcodes tell the cases apart, and of the grouped ones each has its own.

The theorem `Instr.decodeAll_entries` goes on to whole streams, whatever the instructions and
their operands: every byte is consumed, the same instructions are found, and streams of different
instructions have different bytes.
-/

set_option autoImplicit false

namespace WasmAssembly

open ByteReader

/-! ### Immediates -/

namespace BlockType

/-- A block type is written as an integer of 33 bits. -/
theorem toInt_bounds (t : BlockType) : -(2 ^ 32 : Nat) ≤ t.toInt ∧ t.toInt < (2 ^ 32 : Nat) := by
  cases t with
  | empty => decide
  | value type =>
      obtain ⟨hlow, hhigh⟩ := type.code_bounds
      simp only [toInt]
      omega
  | func index =>
      have hlt := index.toNat_lt
      simp only [toInt]
      omega

/-- The integers of different block types differ: those of value types and of no values are
negative, and the code of no value type stands for no values. -/
theorem ofInt?_toInt (t : BlockType) : ofInt? t.toInt = some t := by
  cases t with
  | empty => rfl
  | value type => cases type <;> rfl
  | func index =>
      have hnonneg : (0 : Int) ≤ index.toNat := Int.natCast_nonneg _
      rw [toInt, ofInt?, if_pos hnonneg, Int.toNat_natCast, UInt32.ofNat_toNat]

end BlockType

/-- A block type is read from its bytes. -/
theorem reads_blockType (t : BlockType) : Reads Instr.takeBlockType? (toBytes t) t := by
  intro rest
  obtain ⟨hlow, hhigh⟩ := t.toInt_bounds
  have hint : Bytes.takeSigned? 33 (toBytes t ++ rest) = some (t.toInt, rest) := by
    rw [t.toBytes_eq]
    exact reads_signed (by decide) hlow hhigh rest
  show Instr.takeBlockType? (toBytes t ++ rest) = some (t, rest)
  simp only [Instr.takeBlockType?, hint, Option.bind_eq_bind, Option.bind_some,
    BlockType.ofInt?_toInt, Option.pure_def]

/-- A memory access is read from its bytes. -/
theorem reads_memArg (arg : MemArg) : Reads (MemoryForm.takeMemArg? .single) (toBytes arg) arg := by
  intro rest
  have halign := reads_u32 arg.align (Leb128.unsigned arg.offset.toNat ++ rest)
  have hoffset := reads_u32 arg.offset rest
  show MemoryForm.takeMemArg? .single (toBytes arg ++ rest) = some (arg, rest)
  rw [arg.toBytes_eq, List.append_assoc]
  simp only [u32, StateT.run] at halign hoffset
  simp only [MemoryForm.takeMemArg?, halign, hoffset, Option.bind_eq_bind, Option.bind_some,
    Option.pure_def]

/-! ### Opcodes -/

namespace NumericOp

/-- The list of the numeric instructions is complete. -/
theorem mem_all (op : NumericOp) : op ∈ all := by
  cases op <;> decide

/-- The numeric opcodes follow each other without a gap. -/
theorem opcodes_eq : all.map (·.opcode.toNat) = List.range' 0x45 128 := by
  decide +kernel

/-- No two numeric instructions share an opcode. -/
theorem opcodes_nodup : (all.map opcode).Nodup := by
  refine List.Nodup.of_map UInt8.toNat ?_
  rw [List.map_map]
  exact opcodes_eq ▸ List.nodup_range'

/-- The numeric opcodes come behind all others. -/
theorem le_opcode (op : NumericOp) : 0x45 ≤ op.opcode := by
  cases op <;> decide

/-- An opcode tells its numeric instruction: whatever is found for it has the same opcode. -/
theorem ofOpcode?_opcode (op : NumericOp) : ofOpcode? op.opcode = some op := by
  cases hfind : ofOpcode? op.opcode with
  | none =>
      have hother := List.find?_eq_none.mp hfind op op.mem_all
      exact absurd BEq.rfl hother
  | some found =>
      have hcode : found.opcode = op.opcode := by simpa using List.find?_some hfind
      have hsame : found = op :=
        List.inj_on_of_nodup_map opcodes_nodup (List.mem_of_find?_eq_some hfind) op.mem_all hcode
      rw [hsame]

end NumericOp

namespace Instr

/-- The opcode of a load is followed by its memory access. -/
theorem decode?_load (form : MemoryForm) (op : LoadOp) (bytes : Bytes) :
    decode? form (op.opcode :: bytes)
      = (form.takeMemArg? bytes).map fun (arg, rest) => (load op arg, rest) := by
  cases op <;> rfl

/-- The opcode of a store is followed by its memory access. -/
theorem decode?_store (form : MemoryForm) (op : StoreOp) (bytes : Bytes) :
    decode? form (op.opcode :: bytes)
      = (form.takeMemArg? bytes).map fun (arg, rest) => (store op arg, rest) := by
  cases op <;> rfl

/-- No opcode of a group is found at or above the numeric ones, if all of them are below. -/
theorem find?_eq_none_of_lt {Op : Type} (opcodeOf : Op → UInt8) (ops : List Op) {code : UInt8}
    (hbelow : ∀ op, opcodeOf op < 0x45) (hcode : 0x45 ≤ code) :
    ops.find? (opcodeOf · == code) = none := by
  rw [List.find?_eq_none]
  intro op _ heq
  have hlt := hbelow op
  rw [eq_of_beq heq] at hlt
  exact absurd hlt (UInt8.not_lt.mpr hcode)

/-- The instructions that `decode?` names one by one have opcodes below the numeric ones. -/
theorem decode?_eq_grouped (form : MemoryForm) {code : UInt8} (hcode : 0x45 ≤ code)
    (bytes : Bytes) : decode? form (code :: bytes) = decodeGrouped? form code bytes := by
  -- This rules out every branch but the last.
  have hne : ∀ x : UInt8, x < 0x45 → code ≠ x := by
    rintro x hx rfl
    exact absurd hx (UInt8.not_lt.mpr hcode)
  unfold decode?
  simp only
  split <;> first | rfl | exact absurd rfl (hne _ (by decide))

/-- A numeric instruction has no immediate, so its opcode is all that is read. -/
theorem decode?_numeric (form : MemoryForm) (op : NumericOp) (bytes : Bytes) :
    decode? form (op.opcode :: bytes) = some (numeric op, bytes) := by
  have hcode := op.le_opcode
  have hload := find?_eq_none_of_lt LoadOp.opcode LoadOp.all
    (fun op => by cases op <;> decide) hcode
  have hstore := find?_eq_none_of_lt StoreOp.opcode StoreOp.all
    (fun op => by cases op <;> decide) hcode
  rw [decode?_eq_grouped form hcode, decodeGrouped?]
  simp only [hload, hstore, op.ofOpcode?_opcode, Option.map_some]

/-! ### One instruction -/

/-- The item that stands behind an opcode, made an instruction. -/
theorem map_immediate {α : Type} {p : ByteReader α} {bytes : Bytes} {a : α} (h : Reads p bytes a)
    (make : α → Instr) (rest : Bytes) :
    (p (bytes ++ rest)).map (fun item => (make item.1, item.2)) = some (make a, rest) := by
  have hrun : p (bytes ++ rest) = some (a, rest) := h rest
  rw [hrun, Option.map_some]

/-- Each instruction is found in its bytes. -/
theorem reads_instr (i : Instr) : Reads (decode? .single) (toBytes i) i := by
  intro rest
  rw [toBytes_eq]
  show decode? .single (i.opcode :: (i.immediates ++ rest)) = some (i, rest)
  -- The opcode leads to the reader of its immediate, and this finds the operand that was written.
  cases i with
  | block type => exact map_immediate (reads_blockType type) block rest
  | loop type => exact map_immediate (reads_blockType type) loop rest
  | ifBlock type => exact map_immediate (reads_blockType type) ifBlock rest
  | br depth => exact map_immediate (reads_u32 depth) br rest
  | brIf depth => exact map_immediate (reads_u32 depth) brIf rest
  | call function => exact map_immediate (reads_u32 function) call rest
  | localGet index => exact map_immediate (reads_u32 index) localGet rest
  | localSet index => exact map_immediate (reads_u32 index) localSet rest
  | localTee index => exact map_immediate (reads_u32 index) localTee rest
  | globalGet index => exact map_immediate (reads_u32 index) globalGet rest
  | globalSet index => exact map_immediate (reads_u32 index) globalSet rest
  | load op arg =>
      rw [opcode, decode?_load]
      exact map_immediate (reads_memArg arg) (load op) rest
  | store op arg =>
      rw [opcode, decode?_store]
      exact map_immediate (reads_memArg arg) (store op) rest
  | i32Const value =>
      have hmap := map_immediate (reads_i32 value) (fun z => i32Const (Int32.ofInt z)) rest
      rwa [Int32.ofInt_toInt] at hmap
  | i64Const value =>
      have hmap := map_immediate (reads_i64 value) (fun z => i64Const (Int64.ofInt z)) rest
      rwa [Int64.ofInt_toInt] at hmap
  | f32Const bits =>
      have hmap := map_immediate (reads_f32 bits) (fun n => f32Const (UInt32.ofNat n)) rest
      rwa [UInt32.ofNat_toNat] at hmap
  | f64Const bits =>
      have hmap := map_immediate (reads_f64 bits) (fun n => f64Const (UInt64.ofNat n)) rest
      rwa [UInt64.ofNat_toNat] at hmap
  | numeric op => exact decode?_numeric .single op rest
  | _ => rfl

/-- An instruction has a byte. -/
theorem toBytes_ne_nil (i : Instr) : toBytes i ≠ [] := by
  rw [toBytes_eq]
  exact List.cons_ne_nil _ _

/-! ### Streams -/

/-- Each round takes one instruction off the front and at least one byte, so a budget of as many
rounds as bytes is enough. -/
theorem decodeAll?_go_listBytes (xs : List Instr) (done : List Instr) {budget : Nat}
    (hbudget : (listBytes xs).length ≤ budget) :
    decodeAll?.go .single budget done (listBytes xs) = some (done.reverse ++ xs) := by
  induction xs generalizing done budget with
  | nil => rw [listBytes_nil, decodeAll?.go, List.append_nil]
  | cons x xs ih =>
      obtain ⟨b, bytes, hx⟩ := List.exists_cons_of_ne_nil x.toBytes_ne_nil
      have hfirst : decode? .single (b :: (bytes ++ listBytes xs)) = some (x, listBytes xs) := by
        rw [← List.cons_append, ← hx]
        exact reads_instr x (listBytes xs)
      -- The round that `x` takes is paid for by its first byte.
      rw [listBytes_cons, hx, List.cons_append, List.length_cons, List.length_append] at hbudget
      obtain ⟨rounds, rfl⟩ := Nat.exists_eq_add_of_le' (Nat.le_of_add_left_le hbudget)
      rw [listBytes_cons, hx, List.cons_append, decodeAll?.go, hfirst]
      simp only
      rw [ih (x :: done) (by omega), List.reverse_cons, List.append_assoc, List.singleton_append]

/-- A stream of instructions, whatever they are and whatever their operands, decodes to the same
instructions with no byte left over. So different instructions never make the same stream. -/
theorem decodeAll_entries (xs : List Instr) :
    decodeAll? .single (Buffer.empty.entries xs).toList = some xs
      ∧ ∀ ys : List Instr,
          (Buffer.empty.entries xs).toList = (Buffer.empty.entries ys).toList ↔ xs = ys := by
  have hdecode : ∀ zs : List Instr,
      decodeAll? .single (Buffer.empty.entries zs).toList = some zs := by
    intro zs
    rw [Buffer.toList_entries, Buffer.toList_empty, List.nil_append, decodeAll?,
      decodeAll?_go_listBytes zs [] (Nat.le_refl _), List.reverse_nil, List.nil_append]
  refine ⟨hdecode xs, fun ys => ⟨fun heq => ?_, fun heq => by rw [heq]⟩⟩
  have hsome : some xs = some ys := by
    rw [← hdecode xs, heq, hdecode ys]
  exact Option.some.inj hsome

/-- Written unsigned, the type index 64 would be the byte of a block without values, and 127 that of
`i32`. Written signed, each has a second byte. -/
example :
    decodeAll? .single
        (Buffer.empty.entries
          [block (.func 64), ifBlock .empty, loop (.func 127), loop (.value .i32)]).toList
      = some [block (.func 64), ifBlock .empty, loop (.func 127), loop (.value .i32)] := by
  decide +kernel

end Instr

end WasmAssembly
