import WasmAssembly.Json.Manifest
import WasmAssembly.Proofs.Json.Value

/-!
# `WasmAssembly.Proofs.Json.Manifest`: manifests read back from JSON

`LawfulJson` is the class of types whose values are read back from what is written for them. There
is an instance for each type that a manifest is made of, down to names, indices and value types,
and a theorem for the whole: `Manifest.ofJson_toJson`.

The members of an object are written in order, and each is read when it comes. A member that is
missing leaves its place empty, which at the end counts as no value.
-/

set_option autoImplicit false

namespace WasmAssembly

open Json

/-- A type whose values are read back from what is written for them. -/
class LawfulJson (α : Type) [JsonFormat α] : Prop where
  denotes : ∀ a : α, Denotes JsonFormat.reader (write a) a

/-! ### Names, indices and lists -/

instance : LawfulJson UInt32 where
  denotes n := by
    have hlt : n.toNat < UInt32.size := n.toNat_lt
    have hmake : toU32? (.nonneg n.toNat) = some n := by
      rw [toU32?, if_pos hlt, UInt32.ofNat_toNat]
    exact denotes_nat (Nat.lt_trans hlt (by decide)) hmake

instance : LawfulJson String where
  denotes := denotes_string

instance {α : Type} [JsonFormat α] [LawfulJson α] : LawfulJson (List α) where
  denotes _ := denotes_array fun x _ => LawfulJson.denotes x

instance : LawfulJson ValType where
  denotes t := denotes_byName (by cases t <;> rfl)

instance : LawfulJson ExternalKind where
  denotes k := denotes_byName (by cases k <;> rfl)

/-! ### Members -/

namespace Json

variable {σ α : Type} [JsonFormat α] [LawfulJson α] {members : List (Member σ)} {name : String}
  {state final : σ}

/-- A value that is not missing is read as it is: it does not begin like the word for no value. -/
theorem nullable_write (a : α) {rest : Bytes} (hrest : Delimited rest) :
    nullable JsonFormat.reader (write a ++ rest) = .ok (some a, rest) := by
  have h := LawfulJson.denotes a
  have hread := h.reads hrest
  obtain ⟨b, more, hform, hbegins⟩ := h.begins
  have hhead : (skipBlanks (write a ++ rest)).head? ≠ some 0x6e := by
    rw [hform, List.cons_append, skipBlanks_cons hbegins.blank, List.head?_cons]
    exact fun heq => hbegins.noValue (Option.some.inj heq)
  rw [nullable, if_neg hhead, hread]
  rfl

/-- A member that is known and not set yet is set to what is written for it. -/
theorem Collects.member {get : σ → Option α} {set : σ → α → σ} {a : α}
    {written : List (String × Bytes)}
    (hknown : members.find? (·.name == name) = some (Json.member name get set))
    (hfresh : get state = none) (hothers : Collects members written (set state a) final) :
    Collects members ((name, write a) :: written) state final := by
  refine .cons hknown ?_ ?_ hothers
  · show (get state).isSome = false
    rw [hfresh, Option.isSome_none]
  · intro rest hrest
    show (JsonFormat.reader (write a ++ rest)).map _ = _
    rw [(LawfulJson.denotes a).reads hrest]
    rfl

/-- What is collected from a member that is left out if there is no value. -/
def setOptional (set : σ → Option α → σ) (state : σ) : Option α → σ
  | none => state
  | some a => set state (some a)

/-- A member that may be missing is set where it has a value, and is not written where it has none.
-/
theorem Collects.optional {get : σ → Option (Option α)} {set : σ → Option α → σ}
    (hknown : members.find? (·.name == name) = some (nullableMember name get set))
    (hfresh : get state = none) (value : Option α) :
    Collects members (optionalMember name (value.map write)) state
      (setOptional set state value) := by
  cases value with
  | none => exact .nil state
  | some a =>
      refine .cons hknown ?_ ?_ (.nil _)
      · show (get state).isSome = false
        rw [hfresh, Option.isSome_none]
      · intro rest hrest
        show (nullable JsonFormat.reader (write a ++ rest)).map _ = _
        rw [nullable_write a hrest]
        rfl

end Json

/-! ### Objects -/

instance : LawfulJson FuncType where
  denotes t := by
    have hmembers : Collects FuncType.shape.members
        [("params", write t.params), ("results", write t.results)]
        FuncType.shape.start (some t.params, some t.results) :=
      .member rfl rfl (.member rfl rfl (.nil _))
    exact denotes_object hmembers rfl

instance : LawfulJson ImportEntry where
  denotes e := by
    have hmembers : Collects ImportEntry.shape.members
        ([("namespace", write e.scope), ("name", write e.name), ("kind", write e.kind),
          ("index", write e.index)] ++ optionalMember "signature" (e.signature.map write))
        ImportEntry.shape.start _ :=
      .member rfl rfl (.member rfl rfl (.member rfl rfl (.member rfl rfl
        (.optional rfl rfl e.signature))))
    refine denotes_object hmembers ?_
    obtain ⟨scope, name, kind, index, signature⟩ := e
    cases signature <;> rfl

instance : LawfulJson ExportEntry where
  denotes e := by
    have hmembers : Collects ExportEntry.shape.members
        [("name", write e.name), ("kind", write e.kind), ("index", write e.index)]
        ExportEntry.shape.start ⟨some e.name, some e.kind, some e.index⟩ :=
      .member rfl rfl (.member rfl rfl (.member rfl rfl (.nil _)))
    exact denotes_object hmembers rfl

instance : LawfulJson Manifest where
  denotes m := by
    have hmembers : Collects Manifest.shape.members
        ([("imports", write m.imports), ("exports", write m.exports)] ++
          optionalMember "start" (m.start.map write))
        Manifest.shape.start _ :=
      .member rfl rfl (.member rfl rfl (.optional rfl rfl m.start))
    refine denotes_object hmembers ?_
    obtain ⟨imports, exports, start⟩ := m
    cases start <;> rfl

/-- A manifest is read back from its JSON form, whatever it lists and whatever the names in it. -/
theorem Manifest.ofJson_toJson (m : Manifest) : ofJson m.toJson = .ok m :=
  (LawfulJson.denotes m).parse

end WasmAssembly
