import Disassembly.Proofs.KnownModes

/-!
# Instructions from their opcodes

An instruction is its opcode bytes with the operand bytes behind them; the last byte of an opcode of
three stands behind the operand instead (`Opcode.encode`). Whether the bytes of an opcode lead to it
is a matter of the processor: lead-in bytes must open the opcodes of two bytes and no others, and
what an opcode of three begins with must be an instruction that goes on (`Processor.Selectable`).

Where that is so, every opcode of the table is reached: its bytes settle one unit with its mnemonic,
whatever the operand is and whatever stands behind (`Decoder.scan?_encode`). The registered
processors are of that kind, and there an instruction is as long as its entry says
(`Registry.selects_of_mem`).
-/

namespace Disassembly

/-! ## 1. The bytes of an instruction -/

namespace Opcode

/-- The opcode that the bytes in front of the operand spell. -/
def front (opcode : Nat) : Nat := if opcode < 0x10000 then opcode else opcode / 0x100

/-- The opcode bytes in front of the operand. -/
def leading (opcode : Nat) : List UInt8 :=
  if front opcode < 0x100 then [UInt8.ofNat (front opcode)]
  else [UInt8.ofNat (front opcode / 0x100), UInt8.ofNat (front opcode)]

/-- The opcode bytes behind the operand. -/
def trailing (opcode : Nat) : List UInt8 :=
  if opcode < 0x10000 then [] else [UInt8.ofNat opcode]

/-- An instruction as its bytes. -/
def encode (opcode : Nat) (operands : List UInt8) : List UInt8 :=
  leading opcode ++ (operands ++ trailing opcode)

/-- The bytes that the operand is shown from: where the opcode ends behind them, the first byte
    behind its front only. -/
def shown (opcode : Nat) (operands : List UInt8) : List UInt8 :=
  if opcode < 0x10000 then operands else (operands ++ trailing opcode).take 1

variable {opcode : Nat}

theorem front_lt (h : opcode < 0x1000000) : front opcode < 0x10000 := by
  unfold front
  split <;> omega

theorem ofBytes_concat (bytes : List UInt8) (last : UInt8) :
    ofBytes (bytes ++ [last]) = ofBytes bytes * 256 + last.toNat := by
  unfold ofBytes
  rw [List.foldl_append]
  rfl

theorem ofBytes_leading (h : opcode < 0x1000000) : ofBytes (leading opcode) = front opcode := by
  have hfront := front_lt h
  unfold leading
  split
  · simp only [ofBytes, List.foldl_cons, List.foldl_nil, UInt8.toNat_ofNat']
    omega
  · simp only [ofBytes, List.foldl_cons, List.foldl_nil, UInt8.toNat_ofNat']
    omega

/-- The front of an opcode of three bytes, and its last byte, are the opcode. -/
theorem ofBytes_leading_concat (h : opcode < 0x1000000) (hlong : 0x10000 ≤ opcode) :
    ofBytes (leading opcode ++ [UInt8.ofNat opcode]) = opcode := by
  rw [ofBytes_concat, ofBytes_leading h, front, if_neg (by omega), UInt8.toNat_ofNat']
  omega

theorem byteCount_of_long (hlong : 0x10000 ≤ opcode) : byteCount opcode = 3 := by
  unfold byteCount
  rw [if_neg (by omega), if_neg (by omega)]

theorem length_leading_add (h : opcode < 0x1000000) :
    (leading opcode).length + (trailing opcode).length = byteCount opcode := by
  unfold leading trailing byteCount front
  by_cases hone : opcode < 0x100
  · rw [if_pos (by omega : opcode < 0x10000), if_pos hone, if_pos (by omega), if_pos hone]
    rfl
  · rw [if_neg hone]
    by_cases htwo : opcode < 0x10000
    · rw [if_pos htwo, if_neg hone, if_pos htwo, if_pos htwo]
      rfl
    · rw [if_neg htwo, if_neg (by omega), if_neg htwo, if_neg htwo]
      rfl

theorem length_encode (h : opcode < 0x1000000) (operands : List UInt8) :
    (encode opcode operands).length = byteCount opcode + operands.length := by
  have hcount := length_leading_add h
  rw [encode, List.length_append, List.length_append]
  omega

end Opcode

/-! ## 2. Processors whose opcodes are all reached -/

namespace Processor

variable {processor : Processor} {opcode : Nat} {descriptor : Descriptor}

/-- The bytes of every opcode lead to it, and its mode is known. -/
structure Selectable (processor : Processor) : Prop where
  short : ∀ opcode descriptor, processor.table.get? opcode = some descriptor → opcode < 0x1000000
  /-- No opcode of one byte is taken for the lead-in of one of two. -/
  alone : ∀ opcode descriptor, processor.table.get? opcode = some descriptor →
    opcode < 0x100 → UInt8.ofNat opcode ∉ processor.leadIns
  led : ∀ opcode descriptor, processor.table.get? opcode = some descriptor →
    0x100 ≤ opcode → opcode < 0x10000 → UInt8.ofNat (opcode / 0x100) ∈ processor.leadIns
  /-- What an opcode of three bytes begins with goes on, and has a byte to go on with. -/
  continued : ∀ opcode descriptor, processor.table.get? opcode = some descriptor →
    0x10000 ≤ opcode → ∃ parent, processor.table.get? (opcode / 0x100) = some parent ∧
      parent.flags.extended = true ∧ 3 ≤ parent.length
  modes : ∀ opcode descriptor, processor.table.get? opcode = some descriptor →
    ∃ format, processor.modeMap[descriptor.mode]? = some format

/-- How many operand bytes the declared length leaves room for: the length that is declared for the
    front of the opcode. -/
def operandCount (processor : Processor) (opcode : Nat) : Nat :=
  (processor.table.get? (Opcode.front opcode)).elim 0 (·.length) - Opcode.byteCount opcode

/-- What stands in front of the operand is an opcode itself: the same one, or one that goes on. As
    many bytes are missing behind it as the operand and the rest of the opcode have. -/
theorem Selectable.exists_front (h : processor.Selectable)
    (hget : processor.table.get? opcode = some descriptor) :
    ∃ parent, processor.table.get? (Opcode.front opcode) = some parent ∧
      parent.length - (Opcode.leading opcode).length =
        processor.operandCount opcode + (Opcode.trailing opcode).length ∧
      (opcode < 0x10000 ∧ parent = descriptor ∨
        0x10000 ≤ opcode ∧ parent.flags.extended = true) := by
  have hcount := Opcode.length_leading_add (h.short opcode descriptor hget)
  unfold operandCount
  by_cases hshort : opcode < 0x10000
  · have hfront : Opcode.front opcode = opcode := if_pos hshort
    have htrailing : Opcode.trailing opcode = [] := if_pos hshort
    refine ⟨descriptor, hfront.symm ▸ hget, ?_, Or.inl ⟨hshort, rfl⟩⟩
    rw [hfront, hget, htrailing]
    rw [htrailing] at hcount
    exact congrArg (descriptor.length - ·) hcount
  · have hlong := Nat.le_of_not_lt hshort
    have hfront : Opcode.front opcode = opcode / 0x100 := if_neg hshort
    have htrailing : Opcode.trailing opcode = [UInt8.ofNat opcode] := if_neg hshort
    have hthree := Opcode.byteCount_of_long hlong
    obtain ⟨parent, hparent, hextended, hlength⟩ := h.continued opcode descriptor hget hlong
    refine ⟨parent, hfront.symm ▸ hparent, ?_, Or.inr ⟨hlong, hextended⟩⟩
    rw [hfront, hparent, htrailing, hthree, List.length_singleton]
    rw [htrailing, hthree, List.length_singleton] at hcount
    dsimp only [Option.elim]
    omega

end Processor

/-! ## 3. Decoding what was encoded -/

namespace Decoder

variable {decoder : Decoder} {processor : Processor} {opcode : Nat} {descriptor : Descriptor}
  {operands : List UInt8}

/-- The unit of an instruction with a mnemonic of its own is that instruction. -/
theorem instruction_of_named {format : OperandFormat}
    (hnamed : descriptor.mnemonic ≠ invalidMnemonic) (address : Address)
    (bytes operands : List UInt8) :
    let target :=
      if descriptor.flags.pcRelative then target? format address operands bytes.length else none
    let operand := format.render { bytes := operands, target, labels := decoder.labels }
    decoder.instruction address bytes descriptor format operands =
      { address, bytes, body := .instruction descriptor.mnemonic operand } := by
  have hshown : ¬ (descriptor.mnemonic = invalidMnemonic ∧ decoder.showInvalid = false) :=
    fun hinvalid => hnamed hinvalid.1
  unfold instruction unit
  dsimp only
  rw [if_neg hshown]

/-- An opcode of one byte or two is complete in front of its operand, which shows all bytes. -/
theorem complete_whole {format : OperandFormat} (hshort : opcode < 0x10000)
    (hwhole : descriptor.flags.extended = false) (address : Address) (operands : List UInt8) :
    decoder.complete address (Opcode.leading opcode) (operands ++ Opcode.trailing opcode)
        descriptor format =
      .line (decoder.instruction address (Opcode.encode opcode operands) descriptor format
        (Opcode.shown opcode operands)) := by
  have htrailing : Opcode.trailing opcode = [] := if_pos hshort
  have hshown : Opcode.shown opcode operands = operands := if_pos hshort
  have hextended : ¬ descriptor.flags.extended = true := by
    rw [hwhole]
    exact Bool.false_ne_true
  rw [hshown, Opcode.encode, htrailing, List.append_nil]
  exact if_neg hextended

/-- Behind the operand an opcode of three bytes is complete, and found by all of them. -/
theorem completeExtended_trailing {format : OperandFormat} (hbound : opcode < 0x1000000)
    (hlong : 0x10000 ≤ opcode) (hvisible : decoder.visible? opcode = some descriptor)
    (hformat : decoder.format? descriptor = some format) (address : Address)
    (operands : List UInt8) :
    decoder.completeExtended address (Opcode.leading opcode) (operands ++ Opcode.trailing opcode) =
      .line (decoder.instruction address (Opcode.encode opcode operands) descriptor format
        (Opcode.shown opcode operands)) := by
  have htrailing : Opcode.trailing opcode = [UInt8.ofNat opcode] := if_neg (Nat.not_lt.mpr hlong)
  have hshown : Opcode.shown opcode operands = (operands ++ Opcode.trailing opcode).take 1 :=
    if_neg (Nat.not_lt.mpr hlong)
  rw [hshown, Opcode.encode, htrailing]
  simp only [completeExtended, List.getLast?_concat, Opcode.ofBytes_leading_concat hbound hlong,
    hvisible, hformat]

section Selectable

variable (hset : decoder.instructions = processor.instructionSet)
  (hundocumented : decoder.undocumented = true) (hselectable : processor.Selectable)
include hset

include hundocumented in
theorem visible?_of_get? (hget : processor.table.get? opcode = some descriptor) :
    decoder.visible? opcode = some descriptor := by
  refine Option.filter_eq_some_iff.mpr ⟨?_, ?_⟩
  · rw [hset]
    exact hget
  · rw [hundocumented]
    rfl

include hselectable

theorem exists_format_of_get? (hget : processor.table.get? opcode = some descriptor) :
    ∃ format, processor.modeMap[descriptor.mode]? = some format ∧
      decoder.format? descriptor = some format := by
  obtain ⟨format, hformat⟩ := hselectable.modes opcode descriptor hget
  refine ⟨format, hformat, ?_⟩
  unfold format?
  rw [hset]
  exact hformat

/-- The bytes in front of the operand are read as an opcode, no fewer of them and no more. -/
theorem scan?_leading (hget : processor.table.get? opcode = some descriptor) (address : Address)
    (bytes : List UInt8) :
    decoder.scan? address (Opcode.leading opcode ++ bytes) =
      decoder.scanFrom? address (Opcode.leading opcode) bytes := by
  have hleadIns : decoder.instructions.leadIns = processor.leadIns := by
    rw [hset]
    rfl
  obtain ⟨parent, hparent, -, -⟩ := hselectable.exists_front hget
  have hfront := Opcode.front_lt (hselectable.short opcode descriptor hget)
  unfold Opcode.leading
  by_cases hone : Opcode.front opcode < 0x100
  · have halone := hselectable.alone _ parent hparent hone
    rw [if_pos hone]
    simp only [List.cons_append, List.nil_append, scan?, hleadIns, if_neg halone]
  · have hled := hselectable.led _ parent hparent (Nat.le_of_not_lt hone) hfront
    rw [if_neg hone]
    simp only [List.cons_append, List.nil_append, scan?, hleadIns, if_pos hled]

include hundocumented

/-- **The bytes of an instruction settle a unit with its mnemonic**, whatever stands behind them. -/
theorem scan?_encode (hget : processor.table.get? opcode = some descriptor)
    (hwhole : descriptor.flags.extended = false)
    (hoperands : operands.length = processor.operandCount opcode) (address : Address)
    (more : List UInt8) :
    ∃ format, processor.modeMap[descriptor.mode]? = some format ∧
      decoder.scan? address (Opcode.encode opcode operands ++ more) =
        some { reading := .line (decoder.instruction address (Opcode.encode opcode operands)
                 descriptor format (Opcode.shown opcode operands))
               taken := Opcode.encode opcode operands } := by
  have hbound := hselectable.short opcode descriptor hget
  obtain ⟨parent, hparent, hmissing, hkind⟩ := hselectable.exists_front hget
  obtain ⟨format, hmode, hformat⟩ := exists_format_of_get? hset hselectable hget
  obtain ⟨parentFormat, -, hparentFormat⟩ := exists_format_of_get? hset hselectable hparent
  have hvisible := visible?_of_get? hset hundocumented hget
  have hparentVisible := visible?_of_get? hset hundocumented hparent
  have hcomplete : decoder.complete address (Opcode.leading opcode)
      (operands ++ Opcode.trailing opcode) parent parentFormat =
        .line (decoder.instruction address (Opcode.encode opcode operands) descriptor format
          (Opcode.shown opcode operands)) := by
    rcases hkind with ⟨hshort, rfl⟩ | ⟨hlong, hextended⟩
    · obtain rfl : parentFormat = format := Option.some.inj (hparentFormat.symm.trans hformat)
      exact complete_whole hshort hwhole address operands
    · exact (if_pos hextended).trans
        (completeExtended_trailing hbound hlong hvisible hformat address operands)
  have hbehind : parent.length - (Opcode.leading opcode).length =
      (operands ++ Opcode.trailing opcode).length := by
    rw [hmissing, ← hoperands, List.length_append]
  have hthere := (List.prefix_append (operands ++ Opcode.trailing opcode) more).length_le
  refine ⟨format, hmode, ?_⟩
  rw [Opcode.encode, List.append_assoc, scan?_leading hset hselectable hget]
  simp only [scanFrom?, Opcode.ofBytes_leading hbound, hparentVisible, hparentFormat, hbehind]
  rw [if_pos hthere, List.take_left' rfl, hcomplete]
  rfl

end Selectable

end Decoder

/-! ## 4. The registered processors -/

/-- What makes a processor selectable, asked of one entry of its lists. The entry also says how long
    its instruction is; of one that goes on behind its operand this is said twice. -/
def Processor.Selects (processor : Processor) (entry : OpcodeEntry) : Prop :=
  entry.opcode < 0x1000000 ∧
  (entry.opcode < 0x100 → UInt8.ofNat entry.opcode ∉ processor.leadIns) ∧
  (0x100 ≤ entry.opcode → entry.opcode < 0x10000 →
    UInt8.ofNat (entry.opcode / 0x100) ∈ processor.leadIns) ∧
  (0x10000 ≤ entry.opcode → ∃ parent ∈ processor.entry? (entry.opcode / 0x100),
    parent.flags.extended = true ∧ parent.length = entry.length) ∧
  Opcode.byteCount entry.opcode ≤ entry.length

instance (processor : Processor) (entry : OpcodeEntry) : Decidable (processor.Selects entry) :=
  inferInstanceAs (Decidable (_ ∧ _ ∧ _ ∧ _ ∧ _))

namespace Registry

variable {processor : Processor} {opcode : Nat} {descriptor : Descriptor}

theorem selects_of_mem (h : processor ∈ processors) :
    ∀ layer ∈ processor.layers, ∀ entry ∈ layer, processor.Selects entry := by
  simp only [processors, List.mem_cons, List.not_mem_nil, or_false] at h
  rcases h with rfl | rfl | rfl | rfl
  · decide +kernel
  · decide +kernel
  · decide +kernel
  · decide +kernel

/-- What is asked of the entries holds of what the table makes of them. -/
theorem exists_entry_of_get? (hprocessor : processor ∈ processors)
    (hget : processor.table.get? opcode = some descriptor) :
    ∃ entry, entry.opcode = opcode ∧ entry.toDescriptor = descriptor ∧
      processor.Selects entry ∧ processor.Fits entry := by
  obtain ⟨layer, hlayer, entry, hentry, hopcode, hdescriptor⟩ :=
    InstructionTable.exists_entry_of_get? hget
  exact ⟨entry, hopcode, hdescriptor, selects_of_mem hprocessor layer hlayer entry hentry,
    (wellFormed_of_mem hprocessor).2.2 layer hlayer entry hentry⟩

theorem selectable_of_mem (hprocessor : processor ∈ processors) : processor.Selectable where
  short opcode descriptor hget := by
    obtain ⟨entry, rfl, -, hselects, -⟩ := exists_entry_of_get? hprocessor hget
    exact hselects.1
  alone opcode descriptor hget := by
    obtain ⟨entry, rfl, -, hselects, -⟩ := exists_entry_of_get? hprocessor hget
    exact hselects.2.1
  led opcode descriptor hget := by
    obtain ⟨entry, rfl, -, hselects, -⟩ := exists_entry_of_get? hprocessor hget
    exact hselects.2.2.1
  continued opcode descriptor hget hlong := by
    obtain ⟨entry, rfl, -, hselects, -⟩ := exists_entry_of_get? hprocessor hget
    obtain ⟨parent, hparent, hextended, hlength⟩ := hselects.2.2.2.1 hlong
    have hthree := Opcode.byteCount_of_long hlong
    have hwhole := hselects.2.2.2.2
    refine ⟨parent.toDescriptor, ?_, hextended, by omega⟩
    rw [processor.get?_eq, hparent]
    rfl
  modes opcode descriptor hget := by
    obtain ⟨entry, -, rfl, -, -, -, mode, hmode, hkey⟩ := exists_entry_of_get? hprocessor hget
    rw [← hkey]
    exact ModeMap.exists_format_of_mem hmode

/-- **An instruction of a registered processor is as long as its entry says.** -/
theorem length_encode (hprocessor : processor ∈ processors)
    (hget : processor.table.get? opcode = some descriptor) {operands : List UInt8}
    (hoperands : operands.length = processor.operandCount opcode) :
    (Opcode.encode opcode operands).length = descriptor.length ∧
      descriptor.length ≤ processor.maxLength := by
  have hselectable := selectable_of_mem hprocessor
  have hcount := Opcode.length_leading_add (hselectable.short opcode descriptor hget)
  obtain ⟨parent, hparent, hmissing, hkind⟩ := hselectable.exists_front hget
  obtain ⟨entry, rfl, rfl, ⟨-, -, -, hcontinued, hwhole⟩, -, hfits, -⟩ :=
    exists_entry_of_get? hprocessor hget
  have hlength : parent.length = entry.length := by
    rcases hkind with ⟨-, rfl⟩ | ⟨hlong, -⟩
    · rfl
    · obtain ⟨other, hother, -, hsame⟩ := hcontinued hlong
      have hfront : Opcode.front entry.opcode = entry.opcode / 0x100 :=
        if_neg (Nat.not_lt.mpr hlong)
      rw [hfront, processor.get?_eq, hother] at hparent
      rw [← Option.some.inj hparent]
      exact hsame
  clear hcontinued
  refine ⟨?_, hfits⟩
  rw [Opcode.encode, List.length_append, List.length_append]
  omega

end Registry

/-! ## 5. Every opcode of a table -/

/-- **Every opcode is reached and decoded as declared.** Where the bytes of every opcode lead to it,
    take one that does not go on and has a mnemonic, and operand bytes as the declared length leaves
    room for. From any source that has the bytes of this instruction ahead, exactly these are
    decoded, at any address and under any labels: the unit has the bytes and the mnemonic, and its
    operand is shown from the operand bytes in the format of its mode. What stands behind is left.
    The registered processors are of that kind, and there the unit has as many bytes as the entry of
    the opcode declares. -/
theorem Decoder.every_opcode_decodes :
    (∀ processor : Processor, processor.Selectable →
      ∀ (decoder : Decoder), decoder.instructions = processor.instructionSet →
        decoder.undocumented = true →
      ∀ opcode descriptor, processor.table.get? opcode = some descriptor →
        descriptor.flags.extended = false → descriptor.mnemonic ≠ invalidMnemonic →
      ∀ operands : List UInt8, operands.length = processor.operandCount opcode →
      ∀ (address : Address) (more : List UInt8) (source : Source),
        source.ahead = Opcode.encode opcode operands ++ more →
      ∃ format rest, processor.modeMap[descriptor.mode]? = some format ∧
        let bytes := Opcode.encode opcode operands
        let shown := Opcode.shown opcode operands
        let target := if descriptor.flags.pcRelative then
          Decoder.target? format address shown bytes.length else none
        let operand := format.render { bytes := shown, target, labels := decoder.labels }
        decoder.decode address source =
          (.line { address, bytes, body := .instruction descriptor.mnemonic operand }, rest) ∧
        source.Yields bytes rest ∧ rest.ahead = more) ∧
    ∀ processor ∈ Registry.processors, processor.Selectable ∧
      ∀ opcode descriptor, processor.table.get? opcode = some descriptor →
      ∀ operands : List UInt8, operands.length = processor.operandCount opcode →
        (Opcode.encode opcode operands).length = descriptor.length ∧
          descriptor.length ≤ processor.maxLength := by
  refine ⟨?_, fun processor hprocessor => ⟨Registry.selectable_of_mem hprocessor,
    fun opcode descriptor hget operands => Registry.length_encode hprocessor hget⟩⟩
  intro processor hselectable decoder hset hundocumented opcode descriptor hget hwhole hnamed
    operands hoperands address more source hahead
  obtain ⟨format, hmode, hscan⟩ :=
    scan?_encode hset hundocumented hselectable hget hwhole hoperands address more
  rw [← hahead] at hscan
  obtain ⟨rest, hdecode, hyields⟩ := decode_of_scan hscan
  have hrest : rest.ahead = more := List.append_cancel_left (hyields.ahead.symm.trans hahead)
  refine ⟨format, rest, hmode, ?_, hyields, hrest⟩
  rw [hdecode]
  dsimp only
  rw [instruction_of_named hnamed]

/-- A bit operation of the Z80 at the top of the address space, with a displacement that would be
    the end of another opcode; a retry stands between its bytes and a fault behind the next one. -/
theorem Decoder.every_opcode_decodes_behind_operand :
    let decoder : Decoder :=
      { instructions := ZilogZ80.processor.instructionSet, undocumented := true }
    let descriptor : Descriptor := { length := 4, mnemonic := "bit", mode := "0,(ix+D)" }
    let source : Source :=
      { pending := [.byte 0xDD, .retry, .byte 0xCB, .byte 0x4E, .byte 0x46, .byte 0x3E,
          .fault "lost"] }
    ZilogZ80.processor ∈ Registry.processors ∧ ZilogZ80.processor.Selectable ∧
    ZilogZ80.processor.table.get? 0xDDCB46 = some descriptor ∧
    [0x4E].length = ZilogZ80.processor.operandCount 0xDDCB46 ∧
    source.ahead = Opcode.encode 0xDDCB46 [0x4E] ++ [0x3E] ∧
    ∃ operand rest, decoder.decode 0xFFFE source =
      (.line ⟨0xFFFE, [0xDD, 0xCB, 0x4E, 0x46], .instruction "bit" operand⟩, rest) ∧
      rest.ahead = [0x3E] := by
  intro decoder descriptor source
  have hprocessor : ZilogZ80.processor ∈ Registry.processors := by
    simp only [Registry.processors, List.mem_cons, or_true, true_or]
  have hget : ZilogZ80.processor.table.get? 0xDDCB46 = some descriptor := by
    rw [Processor.get?_eq]
    decide +kernel
  have hcount : [(0x4E : UInt8)].length = ZilogZ80.processor.operandCount 0xDDCB46 := by
    rw [Processor.operandCount, Processor.get?_eq]
    decide +kernel
  have hahead : source.ahead = Opcode.encode 0xDDCB46 [0x4E] ++ [0x3E] := by decide
  obtain ⟨hdecodes, hregistered⟩ := every_opcode_decodes
  obtain ⟨hselectable, -⟩ := hregistered _ hprocessor
  obtain ⟨format, rest, -, hdecode, -, hrest⟩ :=
    hdecodes _ hselectable decoder rfl rfl 0xDDCB46 descriptor hget rfl (by decide) [0x4E] hcount
      0xFFFE [0x3E] source hahead
  exact ⟨hprocessor, hselectable, hget, hcount, hahead, _, rest, hdecode, hrest⟩

end Disassembly
