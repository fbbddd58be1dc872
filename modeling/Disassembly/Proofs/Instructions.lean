import Disassembly.Proofs.Scan
import Disassembly.Processor.Registry

/-!
# Instructions of a processor

What decoding finds in the table and the mode map of a processor was declared there
(`exists_entry_of_visible?`, `exists_mode_of_format?`), and a unit that is decoded is one of an
opcode that means nothing, or of an instruction found in this way (`shows_of_scan?`). For a
processor that makes sense this bounds the unit: it has no more bytes than the longest instruction,
or than a lead-in byte and the one behind it (`length_taken_le`).
-/

namespace Disassembly

/-! ## 1. Declarations -/

/-- **The last item counts.** What a map knows of a key, after some items have been inserted one
    after another, is the value of the last item with the key; if there is none, what it knew
    before. -/
theorem getElem?_foldl_insert {compare : κ → κ → Ordering} [Std.TransCmp compare]
    [Std.LawfulEqCmp compare] [DecidableEq κ] (key : α → κ) (value : α → β) (items : List α)
    (map : Std.TreeMap κ β compare) (k : κ) :
    (items.foldl (fun map item => map.insert (key item) (value item)) map)[k]? =
      ((items.reverse.find? (key · = k)).map value).or map[k]? := by
  induction items generalizing map with
  | nil => rfl
  | cons item items ih =>
    rw [List.foldl_cons, ih, Std.TreeMap.getElem?_insert, List.reverse_cons, List.find?_append]
    cases items.reverse.find? (key · = k) with
    | some other => rfl
    | none =>
      by_cases hsame : key item = k
      · rw [if_pos (hsame ▸ Std.ReflCmp.compare_self), List.find?_singleton,
          if_pos (decide_eq_true hsame)]
        rfl
      · rw [if_neg fun heq => hsame (Std.LawfulEqCmp.eq_of_compare heq), List.find?_singleton,
          if_neg fun heq => hsame (of_decide_eq_true heq)]
        rfl

/-- What a map knows of a key behind some insertions it knew before, or it is the value of one of
    the items. -/
theorem exists_mem_of_getElem?_foldl_insert {compare : κ → κ → Ordering}
    [Std.TransCmp compare] [Std.LawfulEqCmp compare] [DecidableEq κ] (key : α → κ) (value : α → β)
    {k : κ} {v : β} (items : List α) (map : Std.TreeMap κ β compare)
    (h : (items.foldl (fun map item => map.insert (key item) (value item)) map)[k]? = some v) :
    map[k]? = some v ∨ ∃ item ∈ items, key item = k ∧ value item = v := by
  rw [getElem?_foldl_insert] at h
  rcases Option.or_eq_some_iff.mp h with hfound | ⟨-, hmap⟩
  · obtain ⟨item, hitem, hvalue⟩ := Option.map_eq_some_iff.mp hfound
    have hmem := List.mem_reverse.mp (List.mem_of_find?_eq_some hitem)
    have hkey := List.find?_some hitem
    exact Or.inr ⟨item, hmem, of_decide_eq_true hkey, hvalue⟩
  · exact Or.inl hmap

/-- A map that items have been inserted into, one after another, knows the key of each of them, and
    still every key that it knew before. -/
theorem exists_getElem?_foldl_insert {compare : κ → κ → Ordering}
    [Std.TransCmp compare] [Std.LawfulEqCmp compare] [DecidableEq κ] (key : α → κ) (value : α → β)
    {k : κ} (items : List α) (map : Std.TreeMap κ β compare)
    (h : (∃ v, map[k]? = some v) ∨ ∃ item ∈ items, key item = k) :
    ∃ v, (items.foldl (fun map item => map.insert (key item) (value item)) map)[k]? = some v := by
  rw [getElem?_foldl_insert]
  cases hfind : items.reverse.find? (key · = k) with
  | some item => exact ⟨value item, rfl⟩
  | none =>
    rcases h with ⟨v, hmap⟩ | ⟨item, hitem, hkey⟩
    · exact ⟨v, hmap⟩
    · exact absurd (decide_eq_true hkey)
        (List.find?_eq_none.mp hfind item (List.mem_reverse.mpr hitem))

theorem InstructionTable.descriptors_foldl_insert (entries : List OpcodeEntry)
    (table : InstructionTable) : (entries.foldl insert table).descriptors =
      entries.foldl (fun map entry => map.insert entry.opcode entry.toDescriptor)
        table.descriptors := by
  induction entries generalizing table with
  | nil => rfl
  | cons entry entries ih => exact ih _

/-- What a table knows of an opcode is an entry of one of its layers. -/
theorem InstructionTable.exists_entry_of_get? {layers : List (List OpcodeEntry)} {opcode : Nat}
    {descriptor : Descriptor} (h : (build layers).get? opcode = some descriptor) :
    ∃ layer ∈ layers, ∃ entry ∈ layer, entry.opcode = opcode ∧
      entry.toDescriptor = descriptor := by
  unfold get? build at h
  rw [descriptors_foldl_insert] at h
  rcases exists_mem_of_getElem?_foldl_insert _ _ _ _ h with hempty | ⟨entry, hentry, hfound⟩
  · cases hempty
  · obtain ⟨layer, hlayer, hmem⟩ := List.mem_flatten.mp hentry
    exact ⟨layer, hlayer, entry, hmem, hfound⟩

/-- The entry of an opcode that counts: the last one in the order of the layers. -/
def Processor.entry? (processor : Processor) (opcode : Nat) : Option OpcodeEntry :=
  processor.layers.flatten.reverse.find? (·.opcode = opcode)

/-- What a table knows of an opcode is what the last of its entries says. -/
theorem Processor.get?_eq (processor : Processor) (opcode : Nat) :
    processor.table.get? opcode = (processor.entry? opcode).map (·.toDescriptor) := by
  unfold table InstructionTable.get? InstructionTable.build
  rw [InstructionTable.descriptors_foldl_insert, getElem?_foldl_insert]
  exact Option.or_none

/-- The format of a key is that of one of the modes with the key. -/
theorem ModeMap.exists_mode_of_getElem? {modes : List Mode} {key : String}
    {format : OperandFormat} (h : (ofModes modes)[key]? = some format) :
    ∃ mode ∈ modes, mode.key = key ∧ mode.format = format := by
  rcases exists_mem_of_getElem?_foldl_insert Mode.key Mode.format _ _ h with hempty | hmode
  · cases hempty
  · exact hmode

/-- The key of every mode has a format. -/
theorem ModeMap.exists_format_of_mem {modes : List Mode} {mode : Mode} (h : mode ∈ modes) :
    ∃ format, (ofModes modes)[mode.key]? = some format :=
  exists_getElem?_foldl_insert Mode.key Mode.format modes ∅ (Or.inr ⟨mode, h, rfl⟩)

namespace Decoder

variable {decoder : Decoder} {processor : Processor} {address : Address} {opcode bytes : List UInt8}

/-- The table of a processor's decoder holds the last entry of every opcode. -/
theorem get?_of_processor (hset : decoder.instructions = processor.instructionSet) (key : Nat) :
    decoder.instructions.table.get? key = (processor.entry? key).map (·.toDescriptor) := by
  rw [hset]
  exact processor.get?_eq key

/-- The format of a mode is that of the last mode with its key. -/
theorem format?_of_processor (hset : decoder.instructions = processor.instructionSet)
    (descriptor : Descriptor) :
    decoder.format? descriptor =
      (processor.modes.reverse.find? (·.key = descriptor.mode)).map (·.format) := by
  unfold format?
  rw [hset]
  exact (getElem?_foldl_insert Mode.key Mode.format processor.modes ∅ descriptor.mode).trans
    Option.or_none

theorem exists_entry_of_visible? {key : Nat} {descriptor : Descriptor}
    (hset : decoder.instructions = processor.instructionSet)
    (h : decoder.visible? key = some descriptor) :
    (∃ layer ∈ processor.layers, ∃ entry ∈ layer, entry.opcode = key ∧
      entry.toDescriptor = descriptor) ∧
    (decoder.undocumented = false → descriptor.flags.undocumented = false) := by
  obtain ⟨hget, hshown⟩ := Option.filter_eq_some_iff.mp h
  rw [hset] at hget
  refine ⟨InstructionTable.exists_entry_of_get? hget, fun hhidden => ?_⟩
  simpa [hhidden] using hshown

theorem exists_mode_of_format? {descriptor : Descriptor} {format : OperandFormat}
    (hset : decoder.instructions = processor.instructionSet)
    (h : decoder.format? descriptor = some format) :
    ∃ mode ∈ processor.modes, mode.key = descriptor.mode ∧ mode.format = format := by
  unfold format? at h
  rw [hset] at h
  exact ModeMap.exists_mode_of_getElem? h

/-! ## 2. Units -/

/-- A scan takes the opcode first: one byte, or a lead-in byte and the one behind it. -/
theorem exists_opcode_of_scan? {scan : Scan} (h : decoder.scan? address bytes = some scan) :
    ∃ opcode rest, bytes = opcode ++ rest ∧ decoder.scanFrom? address opcode rest = some scan ∧
      ((∃ first, opcode = [first] ∧ first ∉ decoder.instructions.leadIns) ∨
        ∃ first second, opcode = [first, second] ∧ first ∈ decoder.instructions.leadIns) := by
  cases bytes with
  | nil => cases h
  | cons first bytes =>
    unfold scan? at h
    dsimp only at h
    split at h
    · rename_i hlead
      cases bytes with
      | nil => cases h
      | cons second bytes =>
        exact ⟨[first, second], bytes, rfl, h, Or.inr ⟨first, second, rfl, hlead⟩⟩
    · rename_i hlead
      exact ⟨[first], bytes, rfl, h, Or.inl ⟨first, rfl, hlead⟩⟩

/-- `decoder.Shows unit`: `unit` is that of an opcode that means nothing, or of an instruction that
    the decoder knows. -/
def Shows (decoder : Decoder) (unit : Line) : Prop :=
  unit = decoder.invalid unit.address unit.bytes ∨
  ∃ key descriptor format operands, decoder.visible? key = some descriptor ∧
    decoder.format? descriptor = some format ∧
    unit = decoder.instruction unit.address unit.bytes descriptor format operands

theorem shows_of_completeExtended {operands : List UInt8} {unit : Line}
    (h : decoder.completeExtended address opcode operands = .line unit) : decoder.Shows unit := by
  unfold completeExtended at h
  dsimp only at h
  split at h
  · cases h
    exact Or.inl rfl
  · split at h
    · cases h
      exact Or.inl rfl
    · rename_i last hlast descriptor hvisible
      split at h
      · cases h
      · rename_i format hformat
        cases h
        exact Or.inr ⟨_, descriptor, format, _, hvisible, hformat, rfl⟩

/-- **What is decoded is an opcode that means nothing, or a known instruction.** -/
theorem shows_of_scan? {taken : List UInt8} {unit : Line}
    (h : decoder.scan? address bytes = some { reading := .line unit, taken }) :
    decoder.Shows unit := by
  obtain ⟨opcode, rest, -, hfrom, -⟩ := exists_opcode_of_scan? h
  rcases scanFrom?_cases hfrom with ⟨-, hscan⟩ | ⟨descriptor, -, -, hscan⟩ |
    ⟨descriptor, format, hvisible, hformat, -, hscan⟩
  · cases hscan
    exact Or.inl rfl
  · cases hscan
  · have hreading := congrArg Scan.reading hscan
    dsimp only at hreading
    unfold complete at hreading
    split at hreading
    · exact shows_of_completeExtended hreading.symm
    · cases hreading
      exact Or.inr ⟨_, descriptor, format, _, hvisible, hformat, rfl⟩

/-- **A processor that makes sense has no long units**: none has more bytes than the longest
    instruction, or than a lead-in byte and the one behind it. -/
theorem length_taken_le {scan : Scan} (hset : decoder.instructions = processor.instructionSet)
    (hwell : processor.WellFormed) (h : decoder.scan? address bytes = some scan) :
    scan.taken.length ≤ max processor.maxLength 2 := by
  obtain ⟨opcode, rest, -, hfrom, hopcode⟩ := exists_opcode_of_scan? h
  have hshort : opcode.length ≤ 2 := by
    rcases hopcode with ⟨first, rfl, -⟩ | ⟨first, second, rfl, -⟩
    · exact Nat.le_succ 1
    · exact Nat.le_refl 2
  rcases scanFrom?_cases hfrom with ⟨-, rfl⟩ | ⟨descriptor, -, -, rfl⟩ |
    ⟨descriptor, format, hvisible, -, hle, rfl⟩
  · exact Nat.le_trans hshort (Nat.le_max_right _ _)
  · exact Nat.le_trans hshort (Nat.le_max_right _ _)
  · obtain ⟨⟨layer, hlayer, entry, hentry, -, rfl⟩, -⟩ := exists_entry_of_visible? hset hvisible
    have hlength : entry.length ≤ processor.maxLength := (hwell.2.2 layer hlayer entry hentry).2.1
    dsimp only
    rw [List.length_append, List.length_take]
    omega

end Decoder

end Disassembly
