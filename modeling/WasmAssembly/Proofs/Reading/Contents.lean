import WasmAssembly.Proofs.Module.WellFormed
import WasmAssembly.Proofs.Reading.Entries

/-!
# `WasmAssembly.Proofs.Reading.Contents`: reading a module

`Contents` is what a module says, section by section. `Contents.read?` is a strict reader. It takes
the header, then the sections up to the last byte, in the order of the format and the custom ones at
the end; each payload has to be used up by what is read from it, the functions and the code have to
match, and so have the number of data segments and the segments.

`read?_serialize` says that it finds in the bytes of a module what was declared. The module has to
be well formed, and it has to fit: lengths and indices have 32 bits.
-/

set_option autoImplicit false

namespace WasmAssembly

/-- What a module says, section by section. -/
structure Contents where
  types : List FuncType
  imports : List Requirement
  functions : List Function
  tables : List TableType
  memories : List Limits
  globals : List Global
  exports : List Export
  start : Option Nat
  dataCount : Option Nat
  data : List DataSegment
  customs : List CustomSection
  deriving DecidableEq

namespace Contents

open ByteReader

/-- The items that a section lists. A section that is left out lists none. -/
def list? {α : Type} (sections : List (SectionId × Bytes)) (id : SectionId) (p : ByteReader α) :
    Option (List α) :=
  match sections.lookup id with
  | none => some []
  | some payload => whole (vector p) payload

/-- The number that a section consists of, if the section is there. -/
def number? (sections : List (SectionId × Bytes)) (id : SectionId) : Option (Option Nat) :=
  match sections.lookup id with
  | none => some none
  | some payload => (whole index payload).map some

/-- The functions, from the function section and the code section. -/
def functionsOf? (typeIndices : List Nat) (codes : List Code) : Option (List Function) :=
  if typeIndices.length = codes.length then
    some <| List.zipWith (fun typeIndex code => ⟨typeIndex, code.locals, code.body⟩)
      typeIndices codes
  else none

/-- The data segments, if there are as many as their number says. -/
def segmentsOf? (dataCount : Option Nat) (segments : List DataSegment) :
    Option (List DataSegment) :=
  if dataCount.all (· = segments.length) then some segments else none

/-- The sections are in the order of the format, each at most once, and the custom ones come last.
Element segments are not among them. -/
def InOrder (sections : List (SectionId × Bytes)) : Prop :=
  (sections.map Prod.fst).Sublist
    (SectionId.order.erase .elements ++ List.replicate sections.length .custom)

instance (sections : List (SectionId × Bytes)) : Decidable (InOrder sections) :=
  inferInstanceAs (Decidable (List.Sublist _ _))

/-- The custom sections, in order. -/
def customsOf? (sections : List (SectionId × Bytes)) : Option (List CustomSection) :=
  (sections.filter (·.1 = .custom)).mapM fun s => customOf? s.2

/-- What sections say. -/
def ofSections? (sections : List (SectionId × Bytes)) : Option Contents := do
  let types ← list? sections .types funcType
  let imports ← list? sections .imports requirement
  let typeIndices ← list? sections .functions index
  let codes ← list? sections .code code
  let functions ← functionsOf? typeIndices codes
  let tables ← list? sections .tables tableType
  let memories ← list? sections .memories limits
  let globals ← list? sections .globals globalEntry
  let exports ← list? sections .exports exportEntry
  let start ← number? sections .start
  let dataCount ← number? sections .dataCount
  let segments ← list? sections .data dataSegment
  let data ← segmentsOf? dataCount segments
  let customs ← customsOf? sections
  return { types, imports, functions, tables, memories, globals, exports, start, dataCount, data,
           customs }

/-- What the bytes of a module say. -/
def read? (bytes : Bytes) : Option Contents := do
  let header := magic ++ version
  if bytes.take header.length = header then
    let sections ← many frame (bytes.drop header.length)
    if InOrder sections then ofSections? sections else none
  else none

end Contents

namespace Module

/-- What is to be said of a module. -/
def contents (m : Module) : Contents where
  types := m.types.toList
  imports := m.imports.toList.map Import.requirement
  functions := m.functions.toList
  tables := m.tables.toList
  memories := m.memories.toList
  globals := m.globals.toList
  exports := m.exports.toList
  start := m.start
  dataCount := if m.data.size = 0 then none else some m.data.size
  data := m.data.toList
  customs := m.customs.toList

/-- Each section can have its length in front of it. -/
structure PayloadsShort (m : Module) : Prop where
  payloads : ∀ id payload, m.payload id = some payload → payload.length < UInt32.size
  customs : ∀ c ∈ m.customs, (toBytes c).length < UInt32.size

/-- Lengths and indices are below `2 ^ 32`. -/
structure Fits (m : Module) : Prop extends PayloadsShort m where
  counts : ∀ kind, m.count kind < UInt32.size

/-- Whether sections are short can be computed: there are finitely many of them. -/
theorem payloadsShort_iff {m : Module} :
    m.PayloadsShort ↔
      (∀ id ∈ SectionId.all, ∀ payload ∈ m.payload id, payload.length < UInt32.size) ∧
        ∀ c ∈ m.customs.toList, (toBytes c).length < UInt32.size := by
  constructor
  · intro h
    exact ⟨fun id _ payload hpayload => h.payloads id payload hpayload,
      fun c hc => h.customs c (Array.mem_toList_iff.mp hc)⟩
  · rintro ⟨hpayloads, hcustoms⟩
    exact ⟨fun id payload hpayload => hpayloads id (by cases id <;> decide) payload hpayload,
      fun c hc => hcustoms c (Array.mem_toList_iff.mpr hc)⟩

instance (m : Module) : Decidable m.PayloadsShort :=
  decidable_of_iff _ payloadsShort_iff.symm

/-- Whether a module fits can be computed as well: there are finitely many kinds. -/
theorem fits_iff {m : Module} :
    m.Fits ↔ m.PayloadsShort ∧ ∀ kind ∈ ExternalKind.all, m.count kind < UInt32.size := by
  constructor
  · intro h
    exact ⟨h.toPayloadsShort, fun kind _ => h.counts kind⟩
  · rintro ⟨hshort, hcounts⟩
    exact ⟨hshort, fun kind => hcounts kind (by cases kind <;> decide)⟩

instance (m : Module) : Decidable m.Fits :=
  decidable_of_iff _ fits_iff.symm

/-! ### The sections of a module -/

variable {m : Module}

/-- The sections that are there are found by their numbers. -/
theorem lookup_filterMap (ids : List SectionId) (payload : SectionId → Option Bytes)
    (id : SectionId) :
    (ids.filterMap fun id => (payload id).map (id, ·)).lookup id
      = if id ∈ ids then payload id else none := by
  induction ids with
  | nil => rfl
  | cons head ids ih =>
      rw [List.filterMap_cons]
      by_cases hid : id = head
      · subst hid
        rw [if_pos List.mem_cons_self]
        -- Where the section is left out, it is not found later either.
        cases hpayload : payload id with
        | none => rw [Option.map_none, ih, hpayload, ite_self]
        | some bytes => rw [Option.map_some, List.lookup_cons_self]
      · have hmem : id ∈ head :: ids ↔ id ∈ ids := by
          rw [List.mem_cons, or_iff_right hid]
        simp only [hmem, ← ih]
        cases payload head with
        | none => rfl
        | some bytes => rw [Option.map_some, List.lookup_cons, beq_eq_false_iff_ne.mpr hid]

/-- The payload of a section of the format is found under its number. -/
theorem lookup_frames {id : SectionId} (hid : id ∈ SectionId.order) :
    m.frames.lookup id = m.payload id := by
  have hcustom :
      (m.customs.toList.map fun c => (SectionId.custom, toBytes c)).lookup id = none := by
    rw [List.lookup_eq_none_iff]
    intro s hs
    obtain ⟨c, -, rfl⟩ := List.mem_map.mp hs
    rw [bne_iff_ne]
    rintro rfl
    exact absurd hid (by decide : SectionId.custom ∉ SectionId.order)
  rw [frames, List.lookup_append, lookup_filterMap, if_pos hid, hcustom, Option.or_none]

/-- The numbers of the sections that are there are those with a payload. -/
theorem map_fst_filterMap (ids : List SectionId) (payload : SectionId → Option Bytes) :
    (ids.filterMap fun id => (payload id).map (id, ·)).map Prod.fst
      = ids.filter fun id => (payload id).isSome := by
  induction ids with
  | nil => rfl
  | cons id ids ih =>
      rw [List.filterMap_cons, List.filter_cons, ← ih]
      cases payload id with
      | none => rfl
      | some bytes => rfl

/-- The sections of a module are in order: no module has element segments. -/
theorem inOrder_frames : Contents.InOrder m.frames := by
  have hstandard : (SectionId.order.filter fun id => (m.payload id).isSome).Sublist
      (SectionId.order.erase .elements) := by
    have herase : SectionId.order.erase .elements = SectionId.order.filter (· ≠ .elements) := by
      decide
    rw [herase]
    refine List.monotone_filter_right _ ?_
    intro id hid
    rw [decide_eq_true_iff]
    rintro rfl
    exact absurd hid nofun
  have hcustom : (m.customs.toList.map fun c => (SectionId.custom, toBytes c)).map Prod.fst
      = List.replicate m.customs.size .custom := by
    rw [List.map_map, ← Array.length_toList]
    exact List.map_const'
  have hcount : m.customs.size ≤ m.frames.length := by
    rw [frames, List.length_append, List.length_map, Array.length_toList]
    exact Nat.le_add_left _ _
  show (m.frames.map Prod.fst).Sublist _
  nth_rewrite 1 [frames]
  rw [List.map_append, map_fst_filterMap, hcustom]
  exact hstandard.append (List.replicate_sublist_replicate _ |>.mpr hcount)

/-! ### Reading the sections -/

/-- There are no more entries in a section than bytes. -/
theorem length_lt_of_payload (hfits : m.Fits) {α : Type} {id : SectionId} {form : α → Bytes}
    {xs : List α} (hpayload : m.payload id = listPayload form xs) (hne : ∀ x ∈ xs, form x ≠ []) :
    xs.length < UInt32.size := by
  by_cases hxs : xs = []
  · rw [hxs, List.length_nil]
    decide
  · rw [listPayload, if_neg hxs] at hpayload
    have hshort := hfits.payloads id _ hpayload
    have hcount := length_le_length_flatMap hne
    rw [List.length_append] at hshort
    omega

/-- A section that lists items reads back as the items. -/
theorem list?_frames (hfits : m.Fits) {α : Type} {id : SectionId} (hid : id ∈ SectionId.order)
    {p : ByteReader α} {form : α → Bytes} {xs : List α}
    (hpayload : m.payload id = listPayload form xs)
    (hreads : ∀ x ∈ xs, ReadsShort p (form x) x) (hne : ∀ x ∈ xs, form x ≠ []) :
    Contents.list? m.frames id p = some xs := by
  rw [Contents.list?, lookup_frames hid]
  by_cases hxs : xs = []
  · rw [hpayload, listPayload, if_pos hxs, hxs]
  · rw [listPayload, if_neg hxs] at hpayload
    rw [hpayload]
    exact whole_of_reads (readsShort_vector hreads hne (hfits.payloads id _ hpayload))

/-- A section that is a number reads back as the number. -/
theorem number?_frames {id : SectionId} (hid : id ∈ SectionId.order) {n : Option Nat}
    (hpayload : m.payload id = n.map Leb128.unsigned) (hn : ∀ k ∈ n, k < UInt32.size) :
    Contents.number? m.frames id = some n := by
  rw [Contents.number?, lookup_frames hid, hpayload]
  cases n with
  | none => rfl
  | some k =>
      show (ByteReader.whole ByteReader.index (Leb128.unsigned k)).map some = some (some k)
      rw [whole_of_reads (reads_index (hn k rfl)), Option.map_some]

/-- The types and the code of functions are put together to the functions. -/
theorem functionsOf?_map (fs : List Function) :
    Contents.functionsOf? (fs.map (·.typeIndex)) (fs.map Function.code) = some fs := by
  rw [Contents.functionsOf?, List.length_map, List.length_map, if_pos rfl, List.zipWith_map,
    List.zipWith_self]
  exact congrArg some (List.map_id fs)

/-- Custom sections that fit are read from their payloads. -/
theorem mapM_customOf? {cs : List CustomSection}
    (h : ∀ c ∈ cs, (toBytes c).length < UInt32.size) :
    (cs.map fun c => (SectionId.custom, toBytes c)).mapM (fun s => ByteReader.customOf? s.2)
      = some cs := by
  induction cs with
  | nil => rfl
  | cons c cs ih =>
      have hcs := ih fun c' hc' => h c' (List.mem_cons_of_mem c hc')
      rw [List.map_cons, List.mapM_cons, customOf?_toBytes c (h c List.mem_cons_self), hcs]
      rfl

/-- Custom sections read back in order. -/
theorem customsOf?_frames (hfits : m.Fits) :
    Contents.customsOf? m.frames = some m.customs.toList := by
  have hstandard : (SectionId.order.filterMap fun id => (m.payload id).map (id, ·)).filter
      (·.1 = .custom) = [] := by
    rw [List.filter_eq_nil_iff]
    intro s hs
    obtain ⟨id, hid, hpayload⟩ := List.mem_filterMap.mp hs
    obtain ⟨bytes, -, rfl⟩ := Option.map_eq_some_iff.mp hpayload
    rw [decide_eq_true_iff]
    rintro rfl
    exact absurd hid (by decide : SectionId.custom ∉ SectionId.order)
  have hcustom : (m.customs.toList.map fun c => (SectionId.custom, toBytes c)).filter
      (·.1 = .custom) = m.customs.toList.map fun c => (SectionId.custom, toBytes c) := by
    rw [List.filter_eq_self]
    intro s hs
    obtain ⟨c, -, rfl⟩ := List.mem_map.mp hs
    rfl
  rw [Contents.customsOf?, frames, List.filter_append, hstandard, hcustom, List.nil_append]
  exact mapM_customOf? fun c hc => hfits.customs c (Array.mem_toList_iff.mp hc)

/-! ### Reading the module -/

/-- Type indices have 32 bits in a module that fits. -/
theorem lt_of_lt_size_types (h : m.WellFormed) (hfits : m.Fits) {typeIndex : Nat}
    (hlt : typeIndex < m.types.size) : typeIndex < UInt32.size := by
  have hcount := length_lt_of_payload hfits (payload_types m h.types) fun t _ =>
    toBytes_funcType_ne_nil t
  rw [TypeTable.length_toList] at hcount
  exact Nat.lt_trans hlt hcount

/-- The type index of an imported function has 32 bits. -/
theorem requirement_fits (h : m.WellFormed) (hfits : m.Fits) {r : Requirement}
    (hr : r ∈ m.imports.toList.map Import.requirement) {typeIndex : Nat}
    (htype : r.type = .func typeIndex) : typeIndex < UInt32.size := by
  obtain ⟨i, hi, rfl⟩ := List.mem_map.mp hr
  exact lt_of_lt_size_types h hfits (h.importTypes i (Array.mem_toList_iff.mp hi) typeIndex htype)

/-- The type index of a function has 32 bits. -/
theorem typeIndex_fits (h : m.WellFormed) (hfits : m.Fits) {typeIndex : Nat}
    (hmem : typeIndex ∈ m.functions.toList.map (·.typeIndex)) : typeIndex < UInt32.size := by
  obtain ⟨f, hf, rfl⟩ := List.mem_map.mp hmem
  exact lt_of_lt_size_types h hfits (h.functionTypes f (Array.mem_toList_iff.mp hf))

/-- The index of an export has 32 bits. -/
theorem export_fits (h : m.WellFormed) (hfits : m.Fits) {e : Export} (he : e ∈ m.exports.toList) :
    e.index < UInt32.size :=
  Nat.lt_trans (h.exportIndices e (Array.mem_toList_iff.mp he)) (hfits.counts e.kind)

/-- The start function is one of the functions, of which there are not too many. -/
theorem start_fits (h : m.WellFormed) (hfits : m.Fits) {index : Nat} (hstart : index ∈ m.start) :
    index < UInt32.size := by
  obtain ⟨pos, f, rfl, hf, -⟩ := h.startFunction index hstart
  have hpos : pos < m.definedCount .func := (Array.getElem?_eq_some_iff.mp hf).1
  have hcount : m.imported.func + m.definedCount .func < UInt32.size := hfits.counts .func
  omega

/-- The section of the start is the index of the start function. -/
theorem payload_start : m.payload .start = m.start.map Leb128.unsigned := by
  show m.start.map _ = _
  refine Option.map_congr ?_
  intro index _
  rw [Buffer.toList_count, Buffer.toList_empty, List.nil_append]

/-- The section of the number of data segments is that number. -/
theorem payload_dataCount : m.payload .dataCount = m.contents.dataCount.map Leb128.unsigned := by
  show (if m.data.size = 0 then none else some (Buffer.empty.count m.data.size).toList)
    = (if m.data.size = 0 then none else some m.data.size).map _
  by_cases hnone : m.data.size = 0
  · rw [if_pos hnone, if_pos hnone, Option.map_none]
  · rw [if_neg hnone, if_neg hnone, Option.map_some, Buffer.toList_count, Buffer.toList_empty,
      List.nil_append]

/-- The number of data segments has 32 bits. -/
theorem dataCount_fits (hfits : m.Fits) {n : Nat} (hn : n ∈ m.contents.dataCount) :
    n < UInt32.size := by
  have hcount := length_lt_of_payload hfits (payload_data m) fun s _ =>
    toBytes_dataSegment_ne_nil s
  rw [Array.length_toList] at hcount
  change (if m.data.size = 0 then none else some m.data.size) = some n at hn
  by_cases hnone : m.data.size = 0
  · rw [if_pos hnone] at hn
    exact absurd hn nofun
  · rw [if_neg hnone] at hn
    rwa [← Option.some.inj hn]

/-- The data segments are as many as are announced. -/
theorem segmentsOf?_contents :
    Contents.segmentsOf? m.contents.dataCount m.data.toList = some m.data.toList := by
  refine if_pos ?_
  show Option.all _ (if m.data.size = 0 then none else some m.data.size) = true
  by_cases hnone : m.data.size = 0
  · rw [if_pos hnone, Option.all_none]
  · rw [if_neg hnone, Option.all_some, Array.length_toList]
    exact decide_eq_true rfl

/-- The sections of a module read back as its contents. -/
theorem ofSections?_frames (h : m.WellFormed) (hfits : m.Fits) :
    Contents.ofSections? m.frames = some m.contents := by
  -- One equation for each section, in the order in which the reader looks for them. The bounds on
  -- the indices that are written come from the module being well formed.
  have htypes := list?_frames hfits (by decide) (payload_types m h.types)
    (fun t _ => readsShort_funcType t) fun t _ => toBytes_funcType_ne_nil t
  have himports := list?_frames hfits (by decide) (payload_imports m)
    (fun r hr => readsShort_requirement r fun _ => requirement_fits h hfits hr)
    fun r _ => form_requirement_ne_nil r
  have hindices := list?_frames hfits (by decide) (payload_functions m)
    (fun n hn => (reads_index (typeIndex_fits h hfits hn)).short) fun n _ =>
      Leb128.unsigned_ne_nil n
  have hcodes := list?_frames hfits (by decide) (payload_code m)
    (fun c _ => readsShort_code c) fun c _ => sizedBytes_ne_nil _
  have htables := list?_frames hfits (by decide) (payload_tables m)
    (fun t _ => (reads_tableType t).short) fun t _ => toBytes_tableType_ne_nil t
  have hmemories := list?_frames hfits (by decide) (payload_memories m)
    (fun l _ => (reads_limits l).short) fun l _ => toBytes_limits_ne_nil l
  have hglobals := list?_frames hfits (by decide) (payload_globals m)
    (fun g _ => (reads_globalEntry g).short) fun g _ => toBytes_globalEntry_ne_nil g
  have hexports := list?_frames hfits (by decide) (payload_exports m)
    (fun e he => readsShort_exportEntry e (export_fits h hfits he)) fun e _ =>
      toBytes_exportEntry_ne_nil e
  have hstart := number?_frames (by decide) payload_start fun _ => start_fits h hfits
  have hdata := list?_frames hfits (by decide) (payload_data m)
    (fun s _ => readsShort_dataSegment s) fun s _ => toBytes_dataSegment_ne_nil s
  have hdataCount := number?_frames (m := m) (by decide) payload_dataCount fun _ =>
    dataCount_fits hfits
  simp only [Contents.ofSections?, htypes, himports, hindices, hcodes, functionsOf?_map, htables,
    hmemories, hglobals, hexports, hstart, hdata, hdataCount, segmentsOf?_contents,
    customsOf?_frames hfits, Option.bind_eq_bind, Option.bind_some]
  rfl

/-- Every section of a module has a payload that is short enough. -/
theorem length_payload_frames (hshort : m.PayloadsShort) {id : SectionId} {payload : Bytes}
    (hs : (id, payload) ∈ m.frames) : payload.length < UInt32.size := by
  obtain hstandard | hcustom := List.mem_append.mp hs
  · obtain ⟨id', -, hpayload⟩ := List.mem_filterMap.mp hstandard
    obtain ⟨bytes, hbytes, heq⟩ := Option.map_eq_some_iff.mp hpayload
    rw [← (Prod.mk.inj heq).2]
    exact hshort.payloads id' bytes hbytes
  · obtain ⟨c, hc, heq⟩ := List.mem_map.mp hcustom
    rw [← (Prod.mk.inj heq).2]
    exact hshort.customs c (Array.mem_toList_iff.mp hc)

/-- Behind the header stand the sections of a module and nothing else. -/
theorem many_frames (hshort : m.PayloadsShort) :
    ByteReader.many ByteReader.frame (m.frames.flatMap frameBytes) = some m.frames :=
  -- A frame has at least the byte of its number, so `many` finds all of them.
  many_flatMap (fun _ hs => reads_frame (length_payload_frames hshort hs)) fun _ _ =>
    List.cons_ne_nil _ _

/-- What was declared is read back from the bytes of the module. -/
theorem read?_of_fits (h : m.WellFormed) (hfits : m.Fits) :
    Contents.read? m.serialize = some m.contents := by
  have hmany := many_frames hfits.toPayloadsShort
  rw [Contents.read?, serialize_eq_frames, List.take_left, if_pos rfl, List.drop_left, hmany,
    Option.bind_eq_bind, Option.bind_some, if_pos inOrder_frames]
  exact ofSections?_frames h hfits

end Module

end WasmAssembly
