import WasmAssembly.Proofs.Reading.Instr
import WasmAssembly.Proofs.Reading.Vocabulary

/-!
# `WasmAssembly.Proofs.Reading.PrefixFree`: where the forms of the vocabulary end

A reader that finds each value in its bytes, whatever comes behind them, tells two values apart by
their first difference: on one and the same sequence of bytes it finds one value and leaves one rest
(`PrefixFree.of_reads`). The readers of limits, entity types, constant expressions and memory
accesses are of this kind.

The reader of signatures is not, as it takes only counts of 32 bits. Signatures are prefix-free
without a reader, by the numbers in front of their parameters and results. `prefixFree_vocabulary`
puts all of them together.
-/

set_option autoImplicit false

namespace WasmAssembly

/-- If a reader finds every value in its bytes, the bytes show where they end. -/
theorem PrefixFree.of_reads {α : Type} [Encode α] [LawfulEncode α] {p : ByteReader α}
    (h : ∀ a, Reads p (toBytes a) a) : PrefixFree α where
  append_inj a b s t hbytes := by
    have hfound : some (a, s) = some (b, t) :=
      calc some (a, s) = p.run (toBytes a ++ s) := (h a s).symm
        _ = p.run (toBytes b ++ t) := by rw [hbytes]
        _ = some (b, t) := h b t
    rw [Option.some.injEq, Prod.mk.injEq] at hfound
    exact hfound

instance : PrefixFree Limits := .of_reads reads_limits

instance : PrefixFree TableType := .of_reads reads_tableType

instance : PrefixFree GlobalType := .of_reads reads_globalType

instance : PrefixFree ConstExpr := .of_reads reads_constExpr

instance : PrefixFree MemArg := .of_reads reads_memArg

/-- The binary forms of the vocabulary are prefix-free. A value and what comes behind it can be told
from the bytes: a signature with any numbers of parameters and results, limits in order or not, the
types of tables and globals, a constant expression with its floats bit by bit, and a memory access.
Behind whatever has been written, each of them appends its binary form and nothing else. -/
theorem prefixFree_vocabulary :
    PrefixFree FuncType ∧ PrefixFree Limits ∧ PrefixFree TableType ∧ PrefixFree GlobalType ∧
      PrefixFree ConstExpr ∧ PrefixFree MemArg :=
  ⟨inferInstance, inferInstance, inferInstance, inferInstance, inferInstance, inferInstance⟩

end WasmAssembly
