import Disassembly.Line
import Disassembly.Opcode
import Disassembly.Text.Printable

/-!
# Decoding an instruction

An instruction is read byte by byte, and no byte is read that the instruction does not have:

1. the opcode, one byte, or two after a lead-in byte;
2. if the opcode means something, as many bytes as its descriptor says are missing;
3. if the descriptor says so, the last of those bytes is the end of the opcode, and the opcode is
   looked up again with it.

An opcode that means nothing is a unit of the bytes read up to there. The unknown mode of an
opcode is noticed before the operand is read. The last section says that a decoded unit has used
the source up by at least one byte (`decode_line_lt`).
-/

namespace Disassembly

/-- What decoding needs to know of a processor. -/
structure InstructionSet where
  table : InstructionTable
  modes : ModeMap
  /-- The bytes with which an opcode of two bytes begins. -/
  leadIns : List UInt8
  /-- Bytes of the longest instruction. -/
  maxLength : Nat

/-- An instruction set, and how it is to be shown. -/
structure Decoder where
  instructions : InstructionSet
  labels : LabelTable := .empty
  /-- Whether unofficial opcodes mean something. -/
  undocumented : Bool := false
  /-- Whether an opcode that means nothing is shown as such, and not as data. -/
  showInvalid : Bool := false

namespace Decoder

/-! ## 1. Lookups -/

/-- The descriptor of an opcode, where it means something. -/
def visible? (decoder : Decoder) (opcode : Nat) : Option Descriptor :=
  (decoder.instructions.table.get? opcode).filter fun descriptor =>
    decoder.undocumented || !descriptor.flags.undocumented

/-- The format of a descriptor's mode. -/
def format? (decoder : Decoder) (descriptor : Descriptor) : Option OperandFormat :=
  decoder.instructions.modes[descriptor.mode]?

/-! ## 2. Lines -/

/-- Bytes as the value of a `.byte` directive: one printable byte as a character in quotes,
    anything else as numbers. -/
def showData : List UInt8 → String
  | [b] => if Text.isPrintable b then Text.quote [b] else showByte (some b)
  | bytes => ",".intercalate (bytes.map fun b => showByte (some b))

/-- The unit of an instruction. One with the mnemonic of an opcode that means nothing is data,
    unless it is to be shown as it is. -/
def unit (decoder : Decoder) (address : Address) (bytes : List UInt8)
    (mnemonic operand : String) : Line where
  address
  bytes
  body :=
    if mnemonic = invalidMnemonic ∧ decoder.showInvalid = false then
      .directive ".byte" (showData bytes)
    else .instruction mnemonic operand

/-- The unit of an opcode that means nothing. -/
def invalid (decoder : Decoder) (address : Address) (bytes : List UInt8) : Line :=
  decoder.unit address bytes invalidMnemonic ""

/-- Where a branch leads whose operand bytes end with its displacement. `length` is that of the
    whole instruction, since displacements count from the next one. -/
def target? (format : OperandFormat) (address : Address) (operands : List UInt8) (length : Nat) :
    Option Address :=
  match format with
  | .relative16 order _ =>
    (lastWord? operands order).map fun displacement => address.relative16 displacement length
  | _ => operands.getLast?.map fun displacement => address.relative8 displacement length

/-- The unit of an instruction with a known format. `operands` are the bytes shown to the format,
    which need not be all that the instruction has behind its opcode. -/
def instruction (decoder : Decoder) (address : Address) (bytes : List UInt8)
    (descriptor : Descriptor) (format : OperandFormat) (operands : List UInt8) : Line :=
  let target :=
    if descriptor.flags.pcRelative then target? format address operands bytes.length else none
  decoder.unit address bytes descriptor.mnemonic
    (format.render { bytes := operands, target, labels := decoder.labels })

/-! ## 3. Decoding -/

/-- Ends an instruction whose opcode goes on behind its operand. The byte behind the two opcode
    bytes is shown as the operand, whatever else there is. -/
def completeExtended (decoder : Decoder) (address : Address) (opcode operands : List UInt8) :
    Reading :=
  let bytes := opcode ++ operands
  match operands.getLast? with
  | none => .line (decoder.invalid address bytes)
  | some last =>
    let key := Opcode.ofBytes (opcode ++ [last])
    match decoder.visible? key with
    | none => .line (decoder.invalid address bytes)
    | some descriptor =>
      match decoder.format? descriptor with
      | none => .failed (.unknownMode descriptor.mode key)
      | some format =>
        .line (decoder.instruction address bytes descriptor format (operands.take 1))

/-- Ends an instruction all of whose bytes have been read. -/
def complete (decoder : Decoder) (address : Address) (opcode operands : List UInt8)
    (descriptor : Descriptor) (format : OperandFormat) : Reading :=
  if descriptor.flags.extended then decoder.completeExtended address opcode operands
  else .line (decoder.instruction address (opcode ++ operands) descriptor format operands)

/-- Decodes on from the opcode bytes. -/
def decodeFrom (decoder : Decoder) (address : Address) (opcode : List UInt8) (source : Source) :
    Reading × Source :=
  let key := Opcode.ofBytes opcode
  match decoder.visible? key with
  | none => (.line (decoder.invalid address opcode), source)
  | some descriptor =>
    match decoder.format? descriptor with
    | none => (.failed (.unknownMode descriptor.mode key), source)
    | some format =>
      let taken := source.take (descriptor.length - opcode.length)
      match taken.supply with
      | .full => (decoder.complete address opcode taken.bytes descriptor format, taken.rest)
      | .short => (.truncated none, taken.rest)
      | .fault detail => (.failed (.io detail), taken.rest)

/-- Decodes the instruction at an address, whose bytes are the next ones of the source. -/
def decode (decoder : Decoder) (address : Address) (source : Source) : Reading × Source :=
  match source.next with
  | (.endOfData, rest) => (.endOfData, rest)
  | (.fault detail, rest) => (.failed (.io detail), rest)
  | (.byte first, rest) =>
    if first ∈ decoder.instructions.leadIns then
      match rest.next with
      | (.endOfData, rest) => (.truncated none, rest)
      | (.fault detail, rest) => (.failed (.io detail), rest)
      | (.byte second, rest) => decoder.decodeFrom address [first, second] rest
    else decoder.decodeFrom address [first] rest

/-! ## 4. Decoding uses the source up -/

theorem decodeFrom_le (decoder : Decoder) (address : Address) (opcode : List UInt8)
    (source : Source) :
    (decoder.decodeFrom address opcode source).2.pending.length ≤ source.pending.length := by
  simp only [decodeFrom]
  split
  · exact Nat.le_refl _
  · split
    · exact Nat.le_refl _
    · split <;> exact Source.take_le _ _

/-- A unit that was decoded has used the source up by some. -/
theorem decode_line_lt {decoder : Decoder} {address : Address} {source rest : Source} {line : Line}
    (h : decoder.decode address source = (.line line, rest)) :
    rest.pending.length < source.pending.length := by
  unfold decode at h
  split at h
  · simp at h
  · simp at h
  · rename_i first after hnext
    have hlt := Source.next_byte_lt hnext
    have hle := after.next_le
    split at h
    · split at h
      · simp at h
      · simp at h
      · rename_i second behind hsecond
        rw [hsecond] at hle
        have hfrom := decodeFrom_le decoder address [first, second] behind
        rw [h] at hfrom
        exact Nat.lt_of_le_of_lt (Nat.le_trans hfrom hle) hlt
    · have hfrom := decodeFrom_le decoder address [first] after
      rw [h] at hfrom
      exact Nat.lt_of_le_of_lt hfrom hlt

end Decoder

end Disassembly
