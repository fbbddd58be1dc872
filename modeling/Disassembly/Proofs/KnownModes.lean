import Disassembly.Proofs.Instructions
import Disassembly.Proofs.Outcome
import Disassembly.Proofs.Units

/-!
# Processors that make sense

Whether a description makes sense is asked of its lists, while decoding looks into the maps that are
made of them. It suffices to ask the lists: every opcode that means something has a mode with a
format, whichever of its entries counts, and whether it ends in front of its operand or behind it
(`knowsModes_of_wellFormed`). So no bytes settle that a mode is unknown (`exists_line_of_scan?`),
and it takes a fault of the device to make a run fail (`faultAhead_of_error`).
-/

namespace Disassembly

/-! ## 1. Decoding -/

namespace Decoder

variable {decoder : Decoder} {processor : Processor} {address : Address} {opcode bytes : List UInt8}
  {source : Source} {scan : Scan}

/-- Every opcode that means something has a mode with a format. -/
def KnowsModes (decoder : Decoder) : Prop :=
  ∀ key descriptor, decoder.visible? key = some descriptor →
    ∃ format, decoder.format? descriptor = some format

theorem knowsModes_of_wellFormed (hset : decoder.instructions = processor.instructionSet)
    (hwell : processor.WellFormed) : decoder.KnowsModes := by
  intro key descriptor hvisible
  obtain ⟨⟨layer, hlayer, entry, hentry, -, rfl⟩, -⟩ := exists_entry_of_visible? hset hvisible
  obtain ⟨-, -, mode, hmode, hkey⟩ := hwell.2.2 layer hlayer entry hentry
  unfold format?
  rw [hset, ← hkey]
  exact ModeMap.exists_format_of_mem hmode

/-- What is decoded is what the bytes ahead settle, or that they run out. -/
theorem decode_cases (decoder : Decoder) (address : Address) (source : Source) :
    (∃ scan, decoder.scan? address source.ahead = some scan ∧
      (decoder.decode address source).1 = scan.reading) ∨
    (decoder.decode address source).1 = .endOfData ∨
    (decoder.decode address source).1 = .truncated none ∨
    ∃ detail, source.faultAhead = some detail ∧
      (decoder.decode address source).1 = .failed (.io detail) := by
  cases hscan : decoder.scan? address source.ahead with
  | some scan =>
    obtain ⟨rest, hdecode, -⟩ := decode_of_scan hscan
    exact Or.inl ⟨scan, rfl, congrArg Prod.fst hdecode⟩
  | none =>
    have hout := decode_of_none hscan
    cases hfault : source.faultAhead with
    | some detail => exact Or.inr (Or.inr (Or.inr ⟨detail, rfl, hout.faulted detail hfault⟩))
    | none =>
      have hended := congrArg Prod.fst (hout.ended hfault)
      split at hended
      · exact Or.inr (Or.inl hended)
      · exact Or.inr (Or.inr (Or.inl hended))

/-- A unit that is decoded has at least one byte, and of a processor that makes sense no more than
    its longest instruction, or than a lead-in byte and the one behind it. -/
theorem length_of_scan? {unit : Line} {taken : List UInt8}
    (hset : decoder.instructions = processor.instructionSet) (hwell : processor.WellFormed)
    (h : decoder.scan? address bytes = some { reading := .line unit, taken }) :
    1 ≤ unit.bytes.length ∧ unit.bytes.length ≤ max processor.maxLength 2 := by
  obtain ⟨hne, -, ⟨-, rfl⟩, -⟩ := scan?_spec h
  exact ⟨List.length_pos_iff.mpr hne, length_taken_le hset hwell h⟩

section Known

variable (hknows : decoder.KnowsModes)
include hknows

/-- The second lookup of an opcode that ends behind its operand finds a format if it finds
    anything. -/
theorem exists_line_of_completeExtended (address : Address) (opcode operands : List UInt8) :
    ∃ unit, decoder.completeExtended address opcode operands = .line unit := by
  unfold completeExtended
  cases operands.getLast? with
  | none => exact ⟨_, rfl⟩
  | some last =>
    dsimp only
    cases hvisible : decoder.visible? (Opcode.ofBytes (opcode ++ [last])) with
    | none => exact ⟨_, rfl⟩
    | some descriptor =>
      obtain ⟨format, hformat⟩ := hknows _ descriptor hvisible
      dsimp only
      rw [hformat]
      exact ⟨_, rfl⟩

/-- **Bytes that settle something settle a unit.** -/
theorem exists_line_of_scan? (h : decoder.scan? address bytes = some scan) :
    ∃ unit, scan.reading = .line unit := by
  obtain ⟨opcode, rest, -, hfrom, -⟩ := exists_opcode_of_scan? h
  rcases scanFrom?_cases hfrom with ⟨-, rfl⟩ | ⟨descriptor, hvisible, hnone, -⟩ |
    ⟨descriptor, format, -, -, -, rfl⟩
  · exact ⟨_, rfl⟩
  · obtain ⟨format, hformat⟩ := hknows _ descriptor hvisible
    rw [hformat] at hnone
    cases hnone
  · dsimp only
    unfold complete
    split
    · exact exists_line_of_completeExtended hknows address opcode _
    · exact ⟨_, rfl⟩

/-- **It takes a fault of the device to make decoding fail.** -/
theorem faultAhead_of_decode {fault : Fault}
    (h : (decoder.decode address source).1 = .failed fault) :
    ∃ detail, fault = .io detail ∧ source.faultAhead = some detail := by
  rcases decode_cases decoder address source with
    ⟨scan, hscan, hread⟩ | hread | hread | ⟨detail, hfault, hread⟩
  · obtain ⟨unit, hline⟩ := exists_line_of_scan? hknows hscan
    exact absurd (hline.symm.trans (hread.symm.trans h)) nofun
  · exact absurd (hread.symm.trans h) nofun
  · exact absurd (hread.symm.trans h) nofun
  · exact ⟨detail, (Reading.failed.inj (hread.symm.trans h)).symm, hfault⟩

end Known

end Decoder

/-! ## 2. Runs -/

namespace Disassembler

variable {d : Disassembler} {source : Source} {stopAfter : Option Nat}

/-- **It takes a fault of the device to make a run fail**, where the modes are known. -/
theorem faultAhead_of_error {fault : Fault} (hknows : d.toDecoder.KnowsModes)
    (h : (d.run source stopAfter).result = .error fault) :
    ∃ detail, fault = .io detail ∧ source.faultAhead = some detail := by
  rw [result_run] at h
  have hending := Trace.ending_of_error h
  -- a run that failed was not interrupted, so it went as it does without a signal
  have hwalk : d.trace source stopAfter = d.trace source := by
    refine walk_of_not_interrupted d.start source fun hstopped => ?_
    exact absurd (hending.symm.trans hstopped) nofun
  obtain ⟨rest, -, hends⟩ := walk_eq_iff.mp hwalk.symm
  rw [hending] at hends
  cases hends with
  | unknownMode hscan =>
    unfold scan? at hscan
    split at hscan
    · unfold Region.scan? at hscan
      dsimp only at hscan
      split at hscan
      · cases hscan
      · cases hscan
    · obtain ⟨unit, hline⟩ := Decoder.exists_line_of_scan? hknows hscan
      cases hline
  | fault hscan hfault => exact ⟨_, rfl, hfault⟩
  | data hscan hfault hending =>
    rcases ending_of_shortfall hending with ⟨he, -⟩ | ⟨he, -⟩ | ⟨he, -⟩
    · cases he
    · cases he
    · cases he

/-- **A processor that makes sense is decoded without a fault of its own.** Nothing is decoded to an
    unknown mode, from whatever source and at whatever address; a run over a source without a fault
    succeeds, also one that is interrupted; and what is decoded, in a run whatever lies outside its
    regions, has at least one byte, and no more than the longest instruction, or than a lead-in byte
    and the one behind it. -/
theorem run_of_wellFormed (processor : Processor) (options : Options) (labels : LabelTable)
    (regions : RegionTable) (hwell : processor.WellFormed) :
    let d : Disassembler := { ofProcessor processor options with labels, regions }
    (∀ address source mode opcode,
      (d.toDecoder.decode address source).1 ≠ .failed (.unknownMode mode opcode)) ∧
    (∀ source stopAfter, source.faultAhead = none →
      ∃ summary, (d.run source stopAfter).result = .ok summary) ∧
    (∀ address source unit, (d.toDecoder.decode address source).1 = .line unit →
      1 ≤ unit.bytes.length ∧ unit.bytes.length ≤ max processor.maxLength 2) ∧
    ∀ source stopAfter, ∀ unit ∈ (d.trace source stopAfter).units,
      (∀ region ∈ regions, region.contains unit.address = false) →
      1 ≤ unit.bytes.length ∧ unit.bytes.length ≤ max processor.maxLength 2 := by
  intro d
  have hset : d.instructions = processor.instructionSet := rfl
  have hknows : d.toDecoder.KnowsModes := Decoder.knowsModes_of_wellFormed hset hwell
  refine ⟨fun address source mode opcode hfailed => ?_, fun source stopAfter hfault => ?_,
    fun address source unit hline => ?_, fun source stopAfter unit hunit houtside => ?_⟩
  · obtain ⟨detail, hio, -⟩ := Decoder.faultAhead_of_decode hknows hfailed
    cases hio
  · cases hresult : (d.run source stopAfter).result with
    | ok summary => exact ⟨summary, rfl⟩
    | error fault =>
      obtain ⟨detail, -, hahead⟩ := faultAhead_of_error hknows hresult
      rw [hfault] at hahead
      cases hahead
  · rcases Decoder.decode_cases d.toDecoder address source with
      ⟨⟨reading, taken⟩, hscan, hread⟩ | hread | hread | ⟨detail, -, hread⟩
    · cases hread.symm.trans hline
      exact Decoder.length_of_scan? hset hwell hscan
    · exact absurd (hread.symm.trans hline) nofun
    · exact absurd (hread.symm.trans hline) nofun
    · exact absurd (hread.symm.trans hline) nofun
  · have hsettles : d.Settles unit := settles_of_mem_units hunit
    have houtside : d.regions.at? unit.address = none := at?_eq_none_iff.mpr houtside
    unfold Settles scan? at hsettles
    rw [houtside] at hsettles
    exact Decoder.length_of_scan? hset hwell hsettles

/-- A processor of one instruction, whose opcode goes on behind its operand. What the opcode means
    so far is defined anew by a later layer. -/
def continued : Processor where
  id := "continued"
  description := "One instruction"
  leadIns := [0xDD]
  maxLength := 4
  modes := [⟨"offset", .byte { before := "(ix+", after := ")" }⟩, ⟨"none", .implied⟩]
  layers :=
    [[{ opcode := 0xDDCB, length := 2, mnemonic := "bits", mode := "none" }],
     [{ opcode := 0xDDCB, length := 4, mnemonic := invalidMnemonic, mode := "offset",
        flags := { extended := true } },
      { opcode := 0xDDCB46, length := 4, mnemonic := "bit", mode := "offset" }]]

/-- The instruction is decoded and is as long as any, and the run succeeds in front of a region that
    the data does not reach into. -/
theorem run_of_wellFormed_continued :
    let d : Disassembler :=
      { ofProcessor continued {} with labels := .empty, regions := [⟨4, 7, .byte⟩] }
    let source : Source := .ofBytes [0xDD, 0xCB, 0x05, 0x46]
    let unit : Line := ⟨0, [0xDD, 0xCB, 0x05, 0x46], .instruction "bit" "(ix+$05)"⟩
    continued.WellFormed ∧ source.faultAhead = none ∧
    (∃ summary, (d.run source).result = .ok summary) ∧
    unit ∈ (d.trace source).units ∧ unit.bytes.length ≤ max continued.maxLength 2 := by
  intro d source unit
  have hwell : continued.WellFormed := by decide
  have hunits : (d.trace source).units = [unit] := by decide +kernel
  have hunit : unit ∈ (d.trace source).units := by
    rw [hunits]
    exact List.mem_singleton_self unit
  obtain ⟨-, hruns, -, hlength⟩ :=
    run_of_wellFormed continued {} .empty [⟨4, 7, .byte⟩] hwell
  exact ⟨hwell, rfl, hruns source none rfl, hunit, (hlength source none unit hunit (by decide)).2⟩

end Disassembler

end Disassembly
