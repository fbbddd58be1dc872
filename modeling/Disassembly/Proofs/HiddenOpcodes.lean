import Disassembly.Proofs.Continuation
import Disassembly.Proofs.Lockstep

/-!
# Hidden opcodes

Undocumented opcodes are in the table whether they are asked for or not, and where they are not
asked for, every look-up passes over them. That is the same as if they were not in the table at all
(`InstructionTable.documented`), also for what they were to open: the length that a hidden opcode
declares counts for nothing, and where it goes on behind its operand there is no operand
(`Decoder.decode_of_hidden`). What an opcode means in the end decides whether it is hidden, and not
what it meant before it was redefined (`InstructionTable.get?_documented`).
-/

namespace Disassembly

/-! ## 1. Tables without the hidden opcodes -/

/-- The table from which every opcode has been deleted whose descriptor is undocumented. -/
def InstructionTable.documented (table : InstructionTable) : InstructionTable where
  descriptors := table.descriptors.filter fun _ descriptor => !descriptor.flags.undocumented
  collisions := table.collisions

theorem InstructionTable.get?_documented (table : InstructionTable) (opcode : Nat) :
    table.documented.get? opcode =
      (table.get? opcode).filter fun descriptor => !descriptor.flags.undocumented :=
  Std.TreeMap.getElem?_filter'

/-- Of a processor's opcodes those remain that the last entry in its lists says are documented. -/
theorem Processor.get?_documented (processor : Processor) (opcode : Nat) :
    processor.table.documented.get? opcode =
      ((processor.entry? opcode).filter fun entry => !entry.flags.undocumented).map
        (·.toDescriptor) := by
  rw [InstructionTable.get?_documented, Processor.get?_eq, Option.filter_map]
  rfl

/-- The instruction set without the undocumented opcodes. -/
def InstructionSet.documented (set : InstructionSet) : InstructionSet :=
  { set with table := set.table.documented }

/-! ## 2. Decoding -/

namespace Decoder

variable {decoder : Decoder} {address : Address} {opcode : List UInt8} {key : Nat}
  {descriptor : Descriptor} {source : Source}

/-- **An opcode is hidden as if it were not there.** -/
theorem visible?_documented (decoder : Decoder) (key : Nat) :
    ({ decoder with
        undocumented := true, instructions := decoder.instructions.documented } : Decoder).visible?
      key = ({ decoder with undocumented := false } : Decoder).visible? key := by
  have hdeleted : decoder.instructions.documented.table.get? key =
      (decoder.instructions.table.get? key).filter fun descriptor =>
        !descriptor.flags.undocumented := InstructionTable.get?_documented _ key
  unfold visible?
  rw [hdeleted, Option.filter_filter]
  refine congrArg (Option.filter · (decoder.instructions.table.get? key)) (funext fun other => ?_)
  exact Bool.and_true _

/-- So both decode the same. -/
theorem follows_documented (decoder : Decoder) (address : Address) :
    ({ decoder with undocumented := false } : Decoder).Follows (fun _ => False) Eq address
      { decoder with undocumented := true, instructions := decoder.instructions.documented }
      address where
  leadIns := rfl
  visible key _ hvisible := ⟨(visible?_documented decoder key).trans hvisible, rfl⟩
  hidden key hhidden := Or.inl ((visible?_documented decoder key).trans hhidden)
  invalid _ := Or.inl rfl
  instruction _ _ _ _ _ _ _ := rfl

theorem visible?_eq_none_of_undocumented (hdocumented : decoder.undocumented = false)
    (hget : decoder.instructions.table.get? key = some descriptor)
    (hflag : descriptor.flags.undocumented = true) : decoder.visible? key = none := by
  refine Option.filter_eq_none_iff.mpr fun other hother => ?_
  cases hget.symm.trans hother
  rw [hdocumented, hflag]
  decide

/-- **Of an opcode that is hidden, or means nothing, only the opcode bytes are taken.** -/
theorem decode_of_hidden (hopens : decoder.Opens opcode source.ahead)
    (hhidden : decoder.visible? (Opcode.ofBytes opcode) = none) (address : Address) :
    ∃ rest, decoder.decode address source = (.line (decoder.invalid address opcode), rest) ∧
      source.Yields opcode rest := by
  obtain ⟨behind, hahead⟩ := hopens.1
  have hscan : decoder.scan? address source.ahead =
      some { reading := .line (decoder.invalid address opcode), taken := opcode } := by
    rw [← hahead, scan?_of_opens hopens]
    simp only [scanFrom?, hhidden]
  exact decode_of_scan hscan

end Decoder

/-! ## 3. Runs -/

namespace Disassembler

/-- Disassemblers that show the same listing in the same layout, and whose decoders follow each
    other, find the same and run in the same way. -/
theorem run_eq_of_follows {d e : Disassembler} (hregions : e.regions = d.regions)
    (hstart : e.start = d.start) (hlabels : e.labels = d.labels) (hlayout : e.layout = d.layout)
    (hfollows : ∀ cursor,
      d.toDecoder.Follows (fun _ => False) Eq cursor e.toDecoder cursor)
    (source : Source) (stopAfter : Option Nat) (sink : Sink) :
    e.trace source stopAfter = d.trace source stopAfter ∧
      e.run source stopAfter sink = d.run source stopAfter sink := by
  have hbytes : ∀ unit other : Line, unit = other → other.bytes = unit.bytes := by
    rintro unit - rfl
    rfl
  have hstep : ∀ cursor source,
      InStep (fun _ => False) Eq (d.readAt cursor source) (e.readAt cursor source) :=
    fun cursor source => readAt_inStep_of_regions hregions (fun _ _ _ => rfl)
      (fun _ => hfollows cursor) source
  have hwalk := walk_alongside_of_eq hbytes hstep stopAfter d.start source fun _ _ => id
  have htrace : e.trace source stopAfter = d.trace source stopAfter := by
    unfold trace
    rw [hstart]
    exact hwalk.eq
  exact ⟨htrace, run_congr htrace hstart hlabels hlayout sink⟩

/-- **To hide the undocumented opcodes is to delete them.** Any run without them, over whatever
    instructions, is the run with them over the table from which every opcode has been deleted that
    in the end is undocumented: it finds the same units and the same end, answers the same and
    writes the same. For a processor, an opcode is in that table if the last of its entries is
    documented. So where a decoder does not ask for undocumented opcodes, one in front of an operand
    is shown as an opcode that means nothing and has its one or two opcode bytes, whatever its
    length and whether it goes on or not; and one that ends behind its operand is shown so with all
    bytes that its front asks for. -/
theorem run_documented :
    (∀ (d : Disassembler) source stopAfter sink,
      let gated : Disassembler := { d with undocumented := false }
      let deleted : Disassembler :=
        { d with undocumented := true, instructions := d.instructions.documented }
      gated.trace source stopAfter = deleted.trace source stopAfter ∧
        gated.run source stopAfter sink = deleted.run source stopAfter sink) ∧
    (∀ (processor : Processor) opcode, processor.table.documented.get? opcode =
      ((processor.entry? opcode).filter fun entry => !entry.flags.undocumented).map
        (·.toDescriptor)) ∧
    ∀ decoder : Decoder, decoder.undocumented = false →
      (∀ (address : Address) opcode (source : Source) descriptor,
        decoder.Opens opcode source.ahead →
        decoder.instructions.table.get? (Opcode.ofBytes opcode) = some descriptor →
        descriptor.flags.undocumented = true →
        (opcode.length = 1 ∨ opcode.length = 2) ∧
        ∃ rest, decoder.decode address source = (.line (decoder.invalid address opcode), rest) ∧
          source.Yields opcode rest) ∧
      ∀ (address : Address) opcode operands (source : Source) more parent last child,
        decoder.Continues opcode operands parent → operands.getLast? = some last →
        decoder.instructions.table.get? (Opcode.ofBytes opcode <<< 8 ||| last.toNat) =
          some child →
        child.flags.undocumented = true →
        let bytes := opcode ++ operands
        source.ahead = bytes ++ more →
        bytes.length = max parent.length opcode.length ∧
        ∃ rest, decoder.decode address source = (.line (decoder.invalid address bytes), rest) ∧
          source.Yields bytes rest := by
  refine ⟨fun d source stopAfter sink => ?_, Processor.get?_documented,
    fun decoder hdocumented => ⟨?_, ?_⟩⟩
  · intro gated deleted
    obtain ⟨htrace, hrun⟩ := run_eq_of_follows (d := gated) (e := deleted) rfl rfl rfl rfl
      (Decoder.follows_documented d.toDecoder) source stopAfter sink
    exact ⟨htrace.symm, hrun.symm⟩
  · intro address opcode source descriptor hopens hget hflag
    have hhidden := Decoder.visible?_eq_none_of_undocumented hdocumented hget hflag
    refine ⟨?_, Decoder.decode_of_hidden hopens hhidden address⟩
    rcases hopens.2 with ⟨first, rfl, -⟩ | ⟨first, second, rfl, -⟩
    · exact Or.inl rfl
    · exact Or.inr rfl
  · intro address opcode operands source more parent last child hcontinues hlast hget hflag bytes
      hahead
    have hhidden := Decoder.visible?_eq_none_of_undocumented hdocumented hget hflag
    rw [← Opcode.ofBytes_concat_bits] at hhidden
    obtain ⟨rest, hdecode, hyields⟩ := hcontinues.decode_eq hahead address
    rw [Decoder.completeExtended_of_hidden hlast hhidden] at hdecode
    exact ⟨hcontinues.length_eq, rest, hdecode, hyields⟩

/-- To a 6502 a load of two registers is one byte that means nothing; to a Z80 a shift of an indexed
    cell is four of them. In both cases what stands behind is left. -/
theorem run_documented_shift :
    let nmos : Decoder := { instructions := Nmos6502.processor.instructionSet }
    let z80 : Decoder := { instructions := ZilogZ80.processor.instructionSet }
    let lax : Descriptor :=
      { length := 2, mnemonic := "lax", mode := "zeropage", flags := { undocumented := true } }
    let sll : Descriptor :=
      { length := 4, mnemonic := "sll", mode := "(ix+D)", flags := { undocumented := true } }
    let parent : Descriptor :=
      { length := 4, mnemonic := invalidMnemonic, mode := "(ix+D)", flags := { extended := true } }
    nmos.instructions.table.get? 0xA7 = some lax ∧
    (∃ rest, nmos.decode 0x1000 (.ofBytes [0xA7, 0x80]) =
      (.line ⟨0x1000, [0xA7], .directive ".byte" "$A7"⟩, rest) ∧ rest.ahead = [0x80]) ∧
    z80.instructions.table.get? 0xDDCB36 = some sll ∧
    z80.Continues [0xDD, 0xCB] [0x05, 0x36] parent ∧
    ∃ rest, z80.decode 0x1000 (.ofBytes [0xDD, 0xCB, 0x05, 0x36, 0xC9]) =
      (.line ⟨0x1000, [0xDD, 0xCB, 0x05, 0x36], .directive ".byte" "$DD,$CB,$05,$36"⟩, rest) ∧
      rest.ahead = [0xC9] := by
  intro nmos z80 lax sll parent
  have hnmos : nmos.instructions = Nmos6502.processor.instructionSet := Eq.refl _
  have hz80 : z80.instructions = ZilogZ80.processor.instructionSet := Eq.refl _
  have hlax : nmos.instructions.table.get? 0xA7 = some lax := by
    rw [Decoder.get?_of_processor hnmos]
    decide +kernel
  have hsll : z80.instructions.table.get? 0xDDCB36 = some sll := by
    rw [Decoder.get?_of_processor hz80]
    decide +kernel
  have hparent : z80.visible? 0xDDCB = some parent := by
    have hget : z80.instructions.table.get? 0xDDCB = some parent := by
      rw [Decoder.get?_of_processor hz80]
      decide +kernel
    exact Option.filter_eq_some_iff.mpr ⟨hget, rfl⟩
  have hknown : z80.KnowsModes :=
    Decoder.knowsModes_of_wellFormed hz80 ZilogZ80.processor_wellFormed
  have hcontinues : z80.Continues [0xDD, 0xCB] [0x05, 0x36] parent :=
    { opens := ⟨⟨[0x05, 0x36], rfl⟩, Or.inr ⟨0xDD, 0xCB, rfl, by decide⟩⟩
      visible := hparent
      known := hknown _ parent hparent
      extended := rfl
      count := rfl }
  obtain ⟨-, -, hhidden⟩ := run_documented
  obtain ⟨hfront, -⟩ := hhidden nmos rfl
  obtain ⟨-, hbehind⟩ := hhidden z80 rfl
  obtain ⟨-, rest, hdecode, hyields⟩ := hfront 0x1000 [0xA7] (.ofBytes [0xA7, 0x80]) lax
    ⟨⟨[0x80], rfl⟩, Or.inl ⟨0xA7, rfl, by decide⟩⟩ hlax rfl
  obtain ⟨-, left, hdecode', hyields'⟩ := hbehind 0x1000 [0xDD, 0xCB] [0x05, 0x36]
    (.ofBytes [0xDD, 0xCB, 0x05, 0x36, 0xC9]) [0xC9] parent 0x36 sll hcontinues rfl hsll rfl rfl
  exact ⟨hlax, ⟨rest, hdecode, List.append_cancel_left hyields.ahead.symm⟩, hsll, hcontinues,
    left, hdecode', List.append_cancel_left hyields'.ahead.symm⟩

end Disassembler

end Disassembly
