import WasmAssembly.Json.Vocabulary
import WasmAssembly.Proofs.Json.Text

/-!
# `WasmAssembly.Proofs.Json.Value`: arrays, objects and names read back

`Denotes reader bytes a` says that `reader` finds `a` in `bytes` and stops behind them, if a value
may end there. Values are put together from values, so for each way to write there is a lemma that
starts from what the parts denote: numbers, strings, names of enumerated types, arrays
(`denotes_array`) and objects (`denotes_object`).

An object is read member by member into what has been collected. `Collects` follows the members as
they are written: each is known, has not been read before, and is collected.
-/

set_option autoImplicit false

namespace WasmAssembly.Json

/-- A byte that a value may begin with. It can be told from a blank, from the end of an array and
from the word for no value. -/
structure Begins (b : UInt8) : Prop where
  blank : isBlank b = false
  closing : b ≠ closeBracket
  noValue : b ≠ 0x6e

/-- A reader finds a value in exactly these bytes, if a value may end behind them. -/
structure Denotes {α : Type} (reader : Reader α) (bytes : Bytes) (a : α) : Prop where
  begins : ∃ b more, bytes = b :: more ∧ Begins b
  reads : ∀ {rest : Bytes}, Delimited rest → reader (bytes ++ rest) = .ok (a, rest)

variable {α : Type}

/-- What is not blank is not skipped. -/
theorem skipBlanks_cons {b : UInt8} (h : isBlank b = false) (rest : Bytes) :
    skipBlanks (b :: rest) = b :: rest := by
  rw [skipBlanks, List.dropWhile_cons_of_neg]
  rw [h]
  exact Bool.false_ne_true

/-- A text of one value is read as the value. -/
theorem Denotes.parse {reader : Reader α} {bytes : Bytes} {a : α} (h : Denotes reader bytes a) :
    parse reader bytes = .ok a := by
  have hread := h.reads .nil
  rw [List.append_nil] at hread
  rw [Json.parse, hread]
  rfl

/-! ### Numbers, strings and names -/

/-- A value can begin with a digit. -/
theorem begins_digitByte {d : Nat} (h : d < 10) : Begins (Decimal.digitByte d) := by
  have hblank : ∀ d < 10, isBlank (Decimal.digitByte d) = false := by
    decide
  have hclosing : ∀ d < 10, Decimal.digitByte d ≠ closeBracket := by
    decide
  have hnoValue : ∀ d < 10, Decimal.digitByte d ≠ 0x6e := by
    decide
  exact ⟨hblank d h, hclosing d h, hnoValue d h⟩

/-- A value can begin with a quote. -/
theorem begins_quote : Begins quote := ⟨by decide, by decide, by decide⟩

/-- A natural number denotes what is made of it. -/
theorem denotes_nat {make : Number → Option α} {n : Nat} {a : α} (hn : n < significandLimit)
    (hmake : make (.nonneg n) = some a) : Denotes (number make) (nat n) a := by
  obtain ⟨d, hd, more, hform, hread⟩ := readNumber_nat hn
  have hbegins := begins_digitByte hd
  have hstarts : startsNumber (Decimal.digitByte d) = true := by
    rw [startsNumber, isDigit_digitByte d hd, Bool.or_true]
  refine ⟨⟨_, more, hform, hbegins⟩, ?_⟩
  intro rest hrest
  rw [hform, List.cons_append]
  simp only [number, skipBlanks_cons hbegins.blank, hstarts, if_true, hread hrest, hmake]

/-- A text denotes itself. -/
theorem denotes_string (s : String) : Denotes text (string s) s := by
  obtain ⟨body, hform, hread⟩ := stringBody_string s
  refine ⟨⟨quote, body, hform, begins_quote⟩, ?_⟩
  intro rest _
  rw [hform, List.cons_append, ← hread rest]
  rfl

/-- A name is found among the names of a type, if it is the first one that is the same. -/
theorem denotes_byName {all : List α} {name : α → String} {a : α}
    (h : all.find? (name · == name a) = some a) :
    Denotes (byName all name).reader (string (name a)) a := by
  obtain ⟨body, hform, hread⟩ := stringBody_string (name a)
  have hvariant : variantOf (all.map fun a => (name a, Variant.bare a)) (name a)
      = .ok (.bare a) := by
    rw [variantOf, List.find?_map]
    simp only [Function.comp_def, h, Option.map_some]
  refine ⟨⟨quote, body, hform, begins_quote⟩, ?_⟩
  intro rest _
  rw [hform, List.cons_append]
  show (stringBody (body ++ rest) >>= _) = _
  rw [hread]
  show (variantOf (all.map fun a => (name a, Variant.bare a)) (name a) >>= _) = _
  rw [hvariant]
  rfl

/-! ### Items between commas -/

/-- Items behind commas, and then the end of an array or object. -/
theorem delimited_items {items : List Bytes} {rest : Bytes} (h : Delimited rest) :
    Delimited (items.flatMap (comma :: ·) ++ rest) := by
  cases items with
  | nil => exact h
  | cons item items => exact .comma _

/-- Items with a comma in front of each are at least as many bytes. -/
theorem length_le_flatMap_comma (items : List Bytes) :
    items.length ≤ (items.flatMap (comma :: ·)).length := by
  induction items with
  | nil => exact Nat.le_refl _
  | cons item items ih =>
      rw [List.flatMap_cons, List.length_cons, List.length_append, List.length_cons]
      omega

/-- Each item takes a byte, so there are fewer items than bytes if something follows them. -/
theorem length_lt_commaSeparated {items : List Bytes} (h : ∀ item ∈ items, item ≠ [])
    (last : UInt8) (rest : Bytes) :
    items.length < (commaSeparated items ++ last :: rest).length := by
  rw [List.length_append, List.length_cons]
  cases items with
  | nil => exact Nat.succ_pos _
  | cons item items =>
      have hitem := List.length_pos_iff.mpr (h item List.mem_cons_self)
      have hitems := length_le_flatMap_comma items
      rw [commaSeparated, List.length_append, List.length_cons]
      omega

/-! ### Arrays -/

namespace Denotes

variable {reader : Reader α} {bytes : Bytes} {a : α}

/-- What denotes a value has a byte. -/
theorem ne_nil (h : Denotes reader bytes a) : bytes ≠ [] := by
  obtain ⟨b, more, rfl, -⟩ := h.begins
  exact List.cons_ne_nil b more

/-- The first item of a list needs no comma. -/
theorem nextItem_first (h : Denotes reader bytes a) (rest : Bytes) :
    nextItem true (bytes ++ rest) = .ok (some (bytes ++ rest)) := by
  obtain ⟨b, more, rfl, hbegins⟩ := h.begins
  rw [List.cons_append, nextItem, skipBlanks_cons hbegins.blank]
  simp only [hbegins.closing, if_false, if_true]

/-- A later item of a list stands behind a comma. -/
theorem nextItem_comma (h : Denotes reader bytes a) (rest : Bytes) :
    nextItem false (comma :: (bytes ++ rest)) = .ok (some (bytes ++ rest)) := by
  obtain ⟨b, more, rfl, hbegins⟩ := h.begins
  have hcomma : skipBlanks (comma :: (b :: more ++ rest)) = comma :: (b :: more ++ rest) := rfl
  rw [nextItem, hcomma, List.cons_append]
  simp only [skipBlanks_cons hbegins.blank, hbegins.closing, if_false]
  rfl

end Denotes

variable {item : Reader α} {form : α → Bytes} {xs : List α}

/-- The items behind the first one, each behind its comma. -/
theorem items_comma (h : ∀ x ∈ xs, Denotes item (form x) x) (done : List α) {budget : Bytes}
    (hbudget : xs.length < budget.length) (rest : Bytes) :
    items item budget false done ((xs.map form).flatMap (comma :: ·) ++ closeBracket :: rest)
      = .ok (done.reverse ++ xs, closeBracket :: rest) := by
  induction xs generalizing done budget with
  | nil =>
      cases budget with
      | nil => exact absurd hbudget (Nat.not_lt_zero _)
      | cons _ budget =>
          rw [List.append_nil]
          rfl
  | cons x xs ih =>
      obtain ⟨hx, hxs⟩ := List.forall_mem_cons.mp h
      cases budget with
      | nil => exact absurd hbudget (Nat.not_lt_zero _)
      | cons _ budget =>
          -- The item ends at the next comma or at the end of the array.
          have hrest : Delimited ((xs.map form).flatMap (comma :: ·) ++ closeBracket :: rest) :=
            delimited_items (.closeBracket rest)
          rw [List.map_cons, List.flatMap_cons, List.cons_append, List.cons_append,
            List.append_assoc, items, hx.nextItem_comma]
          simp only [hx.reads hrest]
          rw [ih hxs (x :: done) (Nat.lt_of_succ_lt_succ hbudget), List.reverse_cons,
            List.append_assoc, List.singleton_append]

/-- All items of a list are read, from the first one on. -/
theorem items_first (h : ∀ x ∈ xs, Denotes item (form x) x) {budget : Bytes}
    (hbudget : xs.length < budget.length) (rest : Bytes) :
    items item budget true [] (commaSeparated (xs.map form) ++ closeBracket :: rest)
      = .ok (xs, closeBracket :: rest) := by
  cases budget with
  | nil => exact absurd hbudget (Nat.not_lt_zero _)
  | cons _ budget =>
      cases xs with
      | nil => rfl
      | cons x xs =>
          obtain ⟨hx, hxs⟩ := List.forall_mem_cons.mp h
          have hrest : Delimited ((xs.map form).flatMap (comma :: ·) ++ closeBracket :: rest) :=
            delimited_items (.closeBracket rest)
          rw [List.map_cons, commaSeparated, List.append_assoc, items, hx.nextItem_first]
          simp only [hx.reads hrest]
          rw [items_comma hxs [x] (Nat.lt_of_succ_lt_succ hbudget)]
          rfl

/-- An array is read item by item. -/
theorem denotes_array (h : ∀ x ∈ xs, Denotes item (form x) x) :
    Denotes (arrayOf item) (array (xs.map form)) xs := by
  refine ⟨⟨openBracket, _, rfl, by decide, by decide, by decide⟩, ?_⟩
  intro rest _
  have hne : ∀ bytes ∈ xs.map form, bytes ≠ [] := by
    intro bytes hmem
    obtain ⟨x, hx, rfl⟩ := List.mem_map.mp hmem
    exact (h x hx).ne_nil
  -- What stands behind the bracket is also the budget.
  have hbudget := length_lt_commaSeparated hne closeBracket rest
  rw [List.length_map] at hbudget
  rw [array, List.append_assoc, List.cons_append, List.singleton_append]
  show (items item (commaSeparated (xs.map form) ++ closeBracket :: rest) true []
    (commaSeparated (xs.map form) ++ closeBracket :: rest) >>= _) = _
  rw [items_first h hbudget]
  rfl

/-! ### Objects -/

variable {σ : Type}

/-- A member as it is written: the name, a colon and the value. -/
def memberBytes (member : String × Bytes) : Bytes :=
  string member.1 ++ colon :: member.2

/-- Written members take what has been collected from one state to another. Each is a known member,
not read before, and its value is collected. -/
inductive Collects (members : List (Member σ)) : List (String × Bytes) → σ → σ → Prop where
  /-- No member is written. -/
  | nil (state : σ) : Collects members [] state state
  /-- One member is collected, then the others. -/
  | cons {name : String} {value : Bytes} {written : List (String × Bytes)} {state next final : σ}
      {member : Member σ} (hknown : members.find? (·.name == name) = some member)
      (hfresh : member.isSet state = false)
      (hread : ∀ {rest}, Delimited rest → member.read state (value ++ rest) = .ok (next, rest))
      (hothers : Collects members written next final) :
      Collects members ((name, value) :: written) state final

/-- The first name of an object needs no comma. -/
theorem nextName_first (name : String) (rest : Bytes) :
    nextName true (string name ++ rest) = .ok (some (name, rest)) := by
  obtain ⟨body, hform, hread⟩ := stringBody_string name
  rw [hform, List.cons_append]
  show (stringBody (body ++ rest)).map some = _
  rw [hread]
  rfl

/-- A later name of an object stands behind a comma. -/
theorem nextName_comma (name : String) (rest : Bytes) :
    nextName false (comma :: (string name ++ rest)) = .ok (some (name, rest)) := by
  obtain ⟨body, hform, hread⟩ := stringBody_string name
  rw [hform, List.cons_append]
  show (stringBody (body ++ rest)).map some = _
  rw [hread]
  rfl

/-- The value of a known member is read behind the colon. -/
theorem memberValue_colon {members : List (Member σ)} {name : String} {member : Member σ}
    (hknown : members.find? (·.name == name) = some member) {state : σ}
    (hfresh : member.isSet state = false) (s : Bytes) :
    memberValue members name state (colon :: s) = member.read state s := by
  rw [memberValue]
  simp only [hknown, hfresh, Bool.false_eq_true, if_false]
  rfl

variable {members : List (Member σ)} {written : List (String × Bytes)} {state final : σ}

/-- The members behind the first one, each behind its comma. -/
theorem membersFrom_comma (h : Collects members written state final) {budget : Bytes}
    (hbudget : written.length < budget.length) (rest : Bytes) :
    membersFrom members budget false state
        ((written.map memberBytes).flatMap (comma :: ·) ++ closeBrace :: rest)
      = .ok (final, closeBrace :: rest) := by
  -- What has been collected changes with every member, so the induction is on `Collects`.
  induction h generalizing budget with
  | nil state =>
      cases budget with
      | nil => exact absurd hbudget (Nat.not_lt_zero _)
      | cons _ budget => rfl
  | @cons name value written state next final member hknown hfresh hread hothers ih =>
      cases budget with
      | nil => exact absurd hbudget (Nat.not_lt_zero _)
      | cons _ budget =>
          have hrest : Delimited
              ((written.map memberBytes).flatMap (comma :: ·) ++ closeBrace :: rest) :=
            delimited_items (.closeBrace rest)
          rw [List.map_cons, List.flatMap_cons, memberBytes, List.cons_append, List.cons_append,
            List.append_assoc, List.append_assoc, membersFrom, nextName_comma, List.cons_append]
          simp only [memberValue_colon hknown hfresh, hread hrest]
          exact ih (Nat.lt_of_succ_lt_succ hbudget)

/-- All members of an object are read, from the first one on. -/
theorem membersFrom_first (h : Collects members written state final) {budget : Bytes}
    (hbudget : written.length < budget.length) (rest : Bytes) :
    membersFrom members budget true state
        (commaSeparated (written.map memberBytes) ++ closeBrace :: rest)
      = .ok (final, closeBrace :: rest) := by
  cases budget with
  | nil => exact absurd hbudget (Nat.not_lt_zero _)
  | cons _ budget =>
      cases h with
      | nil => rfl
      | @cons name value written _ next _ member hknown hfresh hread hothers =>
          have hrest : Delimited
              ((written.map memberBytes).flatMap (comma :: ·) ++ closeBrace :: rest) :=
            delimited_items (.closeBrace rest)
          rw [List.map_cons, commaSeparated, memberBytes, List.append_assoc, List.append_assoc,
            membersFrom, nextName_first, List.cons_append]
          simp only [memberValue_colon hknown hfresh, hread hrest]
          exact membersFrom_comma hothers (Nat.lt_of_succ_lt_succ hbudget) rest

/-- An object is read member by member, and the value is what the members make. -/
theorem denotes_object {shape : Shape σ α} {a : α}
    (h : Collects shape.members written shape.start final) (hfinish : shape.finish final = some a) :
    Denotes shape.reader (object written) a := by
  refine ⟨⟨openBrace, _, rfl, by decide, by decide, by decide⟩, ?_⟩
  intro rest _
  have hne : ∀ bytes ∈ written.map memberBytes, bytes ≠ [] := by
    intro bytes hmem
    obtain ⟨member, -, rfl⟩ := List.mem_map.mp hmem
    exact List.append_ne_nil_of_right_ne_nil _ (List.cons_ne_nil _ _)
  have hbudget := length_lt_commaSeparated hne closeBrace rest
  rw [List.length_map] at hbudget
  have hobject : object written ++ rest
      = openBrace :: (commaSeparated (written.map memberBytes) ++ closeBrace :: rest) := by
    rw [← List.singleton_append (l := rest), ← List.append_assoc]
    rfl
  rw [hobject]
  show (membersFrom shape.members
    (commaSeparated (written.map memberBytes) ++ closeBrace :: rest) true shape.start
    (commaSeparated (written.map memberBytes) ++ closeBrace :: rest) >>= _) = _
  rw [membersFrom_first h hbudget]
  show (shape.complete final >>= _) = _
  rw [Shape.complete, hfinish]
  rfl

end WasmAssembly.Json
