import Mathlib.Data.List.Nodup
import Disassembly.Proofs.Instructions
import Disassembly.Proofs.OperandText
import Disassembly.Processor.Cmos65C02

/-!
# Opcode lists that can be told apart in writing

An opcode list is legible if a mnemonic and the shape of an operand belong to one row of it, and the
formats of its rows tell all operand bytes (`Rows.Legible`). Both is said of the list alone, and can
be decided.

A processor whose documented opcodes are the rows of a list, with nothing before and nothing behind
the opcode byte but the operand (`Processor.Documents`), decodes by these rows: a unit is a byte
that means nothing, or a row's opcode with a row's operand behind it (`Decoder.written_of_scan?`).
The 6502 and the 65C02 are of that kind, and their lists are legible.
-/

namespace Disassembly

/-! ## 1. Rows -/

namespace Row

/-- What the operand of a row is shown from, where no label is defined. -/
def context (row : Row) (address : Address) (operands : List UInt8) : OperandContext where
  bytes := operands
  target :=
    if row.mode.format.isRelative then
      Decoder.target? row.mode.format address operands (operands.length + 1)
    else none

/-- The operand of a row. -/
def operand (row : Row) (address : Address) (operands : List UInt8) : String :=
  row.mode.format.render (row.context address operands)

theorem noNames_context (row : Row) (address : Address) (operands : List UInt8) :
    (row.context address operands).NoNames := LabelTable.nameAt?_empty

/-- The target of a branch comes of the last operand byte, if the format tells all of them. -/
theorem branches_context {row : Row} (htelling : row.mode.format.Telling)
    (hrelative : row.mode.format.isRelative = true) (address : Address) (operands : List UInt8) :
    (row.context address operands).Branches address (operands.length + 1) := by
  obtain ⟨parts, hparts, -⟩ := htelling
  have htarget : (row.context address operands).target =
      Decoder.target? row.mode.format address operands (operands.length + 1) := if_pos hrelative
  unfold OperandContext.Branches
  rw [htarget]
  generalize row.mode.format = format at hparts
  cases format with
  | relative16 order affix => cases hparts
  | implied => rfl
  | fixed shown => rfl
  | byte affix => rfl
  | word order affix label => rfl
  | relative8 affix => rfl
  | registerPair names => rfl
  | pieces parts => rfl

end Row

/-- A list of rows whose instructions can be told apart in writing. -/
structure Rows.Legible (rows : List Row) : Prop where
  /-- The opcode is all in front of the operand. -/
  whole : ∀ row ∈ rows, row.continued = false
  /-- The text of an operand tells all of its bytes. -/
  telling : ∀ row ∈ rows, row.mode.format.Telling
  /-- A mnemonic is one word. -/
  word : ∀ row ∈ rows, ' ' ∉ row.mnemonic.toList
  /-- No mnemonic is taken for data. -/
  instruction : ∀ row ∈ rows, row.mnemonic ≠ invalidMnemonic ∧ row.mnemonic ≠ ".byte"
  /-- Instructions with the same mnemonic have operands of different shapes. -/
  distinct : (rows.map fun row => (row.mnemonic, row.mode.format.shape)).Nodup

namespace Rows.Legible

variable {rows : List Row}

/-- Where a list is legible, so is any part of it. -/
theorem sublist (h : Legible rows) {others : List Row} (hsub : others.Sublist rows) :
    Legible others where
  whole row hrow := h.whole row (hsub.subset hrow)
  telling row hrow := h.telling row (hsub.subset hrow)
  word row hrow := h.word row (hsub.subset hrow)
  instruction row hrow := h.instruction row (hsub.subset hrow)
  distinct := h.distinct.sublist (hsub.map _)

/-- **What is written says which row it is of and what its operand bytes are**, if the address is
    known. -/
theorem eq_of_operand_eq (h : Legible rows) {row other : Row} (hrow : row ∈ rows)
    (hother : other ∈ rows) {address : Address} {operands operands' : List UInt8}
    (hlength : operands.length = row.mode.format.size)
    (hlength' : operands'.length = other.mode.format.size)
    (hmnemonic : row.mnemonic = other.mnemonic)
    (hoperand : row.operand address operands = other.operand address operands') :
    row = other ∧ operands = operands' := by
  have htelling := h.telling row hrow
  have hshape : row.mode.format.shape = other.mode.format.shape := by
    have htext := OperandFormat.map_mask_render htelling (row.noNames_context address operands)
    have htext' := OperandFormat.map_mask_render (h.telling other hother)
      (other.noNames_context address operands')
    rw [← htext, ← htext']
    exact congrArg (fun text => text.toList.map mask) hoperand
  have heq : row = other :=
    List.inj_on_of_nodup_map h.distinct hrow hother (Prod.ext hmnemonic hshape)
  subst heq
  have hcount : operands'.length = operands.length := hlength'.trans hlength.symm
  have hbranch : row.mode.format.isRelative = true →
      (row.context address operands).Branches address (operands.length + 1) ∧
      (row.context address operands').Branches address (operands.length + 1) := by
    intro hrelative
    have hother := Row.branches_context htelling hrelative address operands'
    rw [hcount] at hother
    exact ⟨Row.branches_context htelling hrelative address operands, hother⟩
  exact ⟨rfl, OperandFormat.bytes_eq_of_render_eq htelling (row.noNames_context _ _)
    (row.noNames_context _ _) hlength hlength' hbranch hoperand⟩

end Rows.Legible

/-! ## 2. Processors -/

/-- The documented opcodes of a processor are those of the rows, and no lead-in byte stands in
    front of one. A mode that has the key of a row's mode shows operands as the row does. -/
structure Processor.Documents (processor : Processor) (rows : List Row) : Prop where
  leadIns : processor.leadIns = []
  entries : ∀ layer ∈ processor.layers, ∀ entry ∈ layer, entry.flags.undocumented = false →
    ∃ row ∈ rows, row.entry = entry
  modes : ∀ row ∈ rows, ∀ mode ∈ processor.modes, mode.key = row.mode.key →
    mode.format = row.mode.format

namespace Decoder

variable {decoder : Decoder} {processor : Processor} {rows : List Row} {address : Address}

/-- `Written rows unit`: `unit` is a byte that means nothing and is shown as data, or the opcode of
    a row and an operand behind it. -/
def Written (rows : List Row) (unit : Line) : Prop :=
  (∃ b, unit.bytes = [b] ∧ unit.body = .directive ".byte" (showData [b])) ∨
  ∃ row ∈ rows, ∃ opcode operands, unit.bytes = opcode :: operands ∧
    row.opcode = opcode.toNat ∧ operands.length = row.mode.format.size ∧
    unit.body = .instruction row.mnemonic (row.operand unit.address operands)

/-- What an opcode that means something stands for is a row with that opcode. -/
theorem exists_row_of_visible? (hset : decoder.instructions = processor.instructionSet)
    (hdocuments : processor.Documents rows) (hhidden : decoder.undocumented = false) {key : Nat}
    {descriptor : Descriptor} {format : OperandFormat}
    (hvisible : decoder.visible? key = some descriptor)
    (hformat : decoder.format? descriptor = some format) :
    ∃ row ∈ rows, row.opcode = key ∧ row.entry.toDescriptor = descriptor ∧
      row.mode.format = format := by
  obtain ⟨⟨layer, hlayer, entry, hentry, hopcode, hdescriptor⟩, hdocumented⟩ :=
    exists_entry_of_visible? hset hvisible
  have hflag : entry.flags.undocumented = false := by
    have hflag := hdocumented hhidden
    rw [← hdescriptor] at hflag
    exact hflag
  obtain ⟨row, hrow, rfl⟩ := hdocuments.entries layer hlayer entry hentry hflag
  obtain ⟨mode, hmode, hkey, hmodeFormat⟩ := exists_mode_of_format? hset hformat
  rw [← hdescriptor] at hkey
  exact ⟨row, hrow, hopcode, hdescriptor,
    (hdocuments.modes row hrow mode hmode hkey).symm.trans hmodeFormat⟩

/-- An instruction with an opcode of one byte is as long as that and its operand. -/
theorem length_of_row {row : Row} {opcode : UInt8} (hopcode : row.opcode = opcode.toNat)
    (hwhole : row.continued = false) : row.entry.length = row.mode.format.size + 1 := by
  have hcount : Opcode.byteCount row.opcode = 1 := by
    have hlt := opcode.toNat_lt
    unfold Opcode.byteCount
    exact if_pos (by omega)
  show Opcode.byteCount row.opcode + row.mode.format.size + (if row.continued then 1 else 0) = _
  rw [hcount, hwhole]
  exact Nat.add_comm 1 _

/-- The unit of a row shows the row's mnemonic and operand. -/
theorem body_instruction_of_row (hlegible : Rows.Legible rows) {row : Row} (hrow : row ∈ rows)
    (hlabels : decoder.labels = .empty) (address : Address) (opcode : UInt8)
    (operands : List UInt8) :
    (decoder.instruction address (opcode :: operands) row.entry.toDescriptor row.mode.format
      operands).body = .instruction row.mnemonic (row.operand address operands) := by
  have hmnemonic : ¬ (row.mnemonic = invalidMnemonic ∧ decoder.showInvalid = false) :=
    fun hinvalid => (hlegible.instruction row hrow).1 hinvalid.1
  unfold instruction
  rw [hlabels]
  exact if_neg hmnemonic

/-- **What is decoded is a byte that means nothing, or an instruction as a row has it.** -/
theorem written_of_scan? (hset : decoder.instructions = processor.instructionSet)
    (hdocuments : processor.Documents rows) (hlegible : Rows.Legible rows)
    (hhidden : decoder.undocumented = false) (hinvalid : decoder.showInvalid = false)
    (hlabels : decoder.labels = .empty) {bytes taken : List UInt8} {unit : Line}
    (h : decoder.scan? address bytes = some { reading := .line unit, taken }) :
    Written rows unit := by
  obtain ⟨opcode, rest, -, hfrom, hopcode⟩ := exists_opcode_of_scan? h
  have hleadIns : decoder.instructions.leadIns = [] := by
    rw [hset]
    exact hdocuments.leadIns
  rw [hleadIns] at hopcode
  rcases hopcode with ⟨first, rfl, -⟩ | ⟨first, second, -, hlead⟩
  · have hkey : Opcode.ofBytes [first] = first.toNat := by simp [Opcode.ofBytes]
    rcases scanFrom?_cases hfrom with ⟨-, hscan⟩ | ⟨descriptor, -, -, hscan⟩ |
      ⟨descriptor, format, hvisible, hformat, hle, hscan⟩
    · cases hscan
      exact Or.inl ⟨first, rfl, if_pos ⟨rfl, hinvalid⟩⟩
    · cases hscan
    · obtain ⟨row, hrow, hopcode, rfl, rfl⟩ :=
        exists_row_of_visible? hset hdocuments hhidden hvisible hformat
      rw [hkey] at hopcode
      have hwhole := hlegible.whole row hrow
      have hcount : row.entry.length - [first].length = row.mode.format.size := by
        rw [length_of_row hopcode hwhole]
        rfl
      rw [hcount] at hle hscan
      have hcomplete : ¬ row.entry.flags.extended = true := by
        show ¬ row.continued = true
        rw [hwhole]
        exact Bool.false_ne_true
      have hreading : Reading.line unit = .line (decoder.instruction address
          (first :: rest.take row.mode.format.size) row.entry.toDescriptor row.mode.format
          (rest.take row.mode.format.size)) :=
        (congrArg Scan.reading hscan).trans (if_neg hcomplete)
      have hunit := Reading.line.inj hreading
      refine Or.inr ⟨row, hrow, first, rest.take row.mode.format.size, ?_, hopcode, ?_, ?_⟩
      · rw [hunit]
        rfl
      · rw [List.length_take]
        omega
      · rw [hunit]
        exact body_instruction_of_row hlegible hrow hlabels address first _
  · cases hlead

end Decoder

/-! ## 3. The 6502 and the 65C02 -/

/-- An entry of an opcode list is the entry of one of its rows. -/
theorem Rows.exists_row_of_mem_entries {lists : List (List Row)} {layer : List OpcodeEntry}
    {entry : OpcodeEntry} (hlayer : layer ∈ lists.map entries) (hentry : entry ∈ layer) :
    ∃ rows ∈ lists, ∃ row ∈ rows, row.entry = entry := by
  obtain ⟨rows, hrows, rfl⟩ := List.mem_map.mp hlayer
  obtain ⟨row, hrow, heq⟩ := List.mem_map.mp hentry
  exact ⟨rows, hrows, row, hrow, heq⟩

namespace Cmos65C02

/-- The documented opcodes of the 65C02. -/
def documented : List Row := Nmos6502.documented ++ additions

theorem documented_legible : Rows.Legible documented where
  whole := by decide +kernel
  telling := by decide +kernel
  word := by decide +kernel
  instruction := by decide +kernel
  distinct := by decide +kernel

theorem modes_of_key : ∀ row ∈ documented, ∀ mode ∈ Nmos6502.modes, mode.key = row.mode.key →
    mode.format = row.mode.format := by decide +kernel

theorem processor_documents : processor.Documents documented where
  leadIns := rfl
  entries := by
    intro layer hlayer entry hentry _
    obtain ⟨rows, hrows, row, hrow, rfl⟩ := Rows.exists_row_of_mem_entries hlayer hentry
    simp only [List.mem_cons, List.not_mem_nil, or_false] at hrows
    rcases hrows with rfl | rfl
    · exact ⟨row, List.mem_append_left _ hrow, rfl⟩
    · exact ⟨row, List.mem_append_right _ hrow, rfl⟩
  modes := modes_of_key

end Cmos65C02

namespace Nmos6502

theorem documented_legible : Rows.Legible documented :=
  Cmos65C02.documented_legible.sublist (List.sublist_append_left _ _)

theorem processor_documents : processor.Documents documented where
  leadIns := rfl
  entries := by
    intro layer hlayer entry hentry hdocumented
    obtain ⟨rows, hrows, row, hrow, rfl⟩ := Rows.exists_row_of_mem_entries hlayer hentry
    simp only [List.mem_cons, List.not_mem_nil, or_false] at hrows
    rcases hrows with rfl | rfl
    · exact ⟨row, hrow, rfl⟩
    · obtain ⟨shown, -, rfl⟩ := List.mem_map.mp hrow
      cases hdocumented
  modes row hrow := Cmos65C02.modes_of_key row (List.mem_append_left _ hrow)

end Nmos6502

end Disassembly
