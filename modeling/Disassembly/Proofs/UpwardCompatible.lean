import Disassembly.Proofs.LegibleRows
import Disassembly.Proofs.Lockstep
import Disassembly.Proofs.Written

/-!
# The 65C02 in place of the 6502

The CMOS part has the documented opcodes of the NMOS part, each with the same meaning
(`Cmos65C02.entry?_of_documented`), and it has the same modes. So wherever an opcode means something
to a 6502 without the undocumented ones, it means the same to a 65C02
(`Cmos65C02.visible?_of_nmos`), and the two come apart only where the 6502 meets an opcode that
means nothing to it. A program without any of those is listed alike by both
(`cmos_runs_documented`).
-/

namespace Disassembly

/-! ## 1. Opcodes -/

namespace Cmos65C02

/-- What CMOS brought has opcodes of its own, so the documented ones of the NMOS part are as they
    were. -/
theorem entry?_of_documented :
    ∀ row ∈ Nmos6502.documented, processor.entry? row.opcode = some row.entry := by
  decide +kernel

theorem modeMap_eq : processor.modeMap = Nmos6502.processor.modeMap :=
  congrArg ModeMap.ofModes (Eq.refl Nmos6502.modes)

section Decoders

variable {nmos cmos : Decoder} (hnmos : nmos.instructions = Nmos6502.processor.instructionSet)
  (hcmos : cmos.instructions = processor.instructionSet)
include hnmos hcmos

/-- **What means something to a 6502 without the undocumented opcodes means the same to a 65C02**,
    whether undocumented ones are asked for there or not: it has none. -/
theorem visible?_of_nmos (hdocumented : nmos.undocumented = false) {key : Nat}
    {descriptor : Descriptor} (h : nmos.visible? key = some descriptor) :
    cmos.visible? key = some descriptor := by
  obtain ⟨⟨layer, hlayer, entry, hentry, rfl, rfl⟩, hofficial⟩ :=
    Decoder.exists_entry_of_visible? hnmos h
  have hofficial := hofficial hdocumented
  obtain ⟨row, hrow, rfl⟩ :=
    Nmos6502.processor_documents.entries layer hlayer entry hentry hofficial
  have hget : cmos.instructions.table.get? row.entry.opcode = some row.entry.toDescriptor := by
    rw [hcmos]
    show processor.table.get? row.opcode = _
    rw [Processor.get?_eq, entry?_of_documented row hrow]
    rfl
  refine Option.filter_eq_some_iff.mpr ⟨hget, ?_⟩
  rw [hofficial]
  exact Bool.or_true _

/-- The modes are those of the whole family. -/
theorem format?_eq_nmos (descriptor : Descriptor) :
    cmos.format? descriptor = nmos.format? descriptor := by
  have hmodes : cmos.instructions.modes = nmos.instructions.modes := by
    rw [hcmos, hnmos]
    exact modeMap_eq
  unfold Decoder.format?
  rw [hmodes]

end Decoders

end Cmos65C02

/-! ## 2. Runs -/

namespace Disassembler

/-- `d.ShowsInvalid unit`: outside all regions, `unit` is that of an opcode that means nothing. -/
def ShowsInvalid (d : Disassembler) (unit : Line) : Prop :=
  d.regions.at? unit.address = none ∧ unit = d.toDecoder.invalid unit.address unit.bytes

instance (d : Disassembler) (unit : Line) : Decidable (d.ShowsInvalid unit) :=
  inferInstanceAs (Decidable (_ ∧ _))

theorem instructions_ofProcessor (processor : Processor) (options : Options) :
    (ofProcessor processor options).instructions = processor.instructionSet := rfl

/-- A 65C02 that is to show the same listing finds what a 6502 finds, unless that meets an opcode
    that means nothing to it. -/
theorem trace_of_documented {nmos cmos : Disassembler}
    (hnmos : nmos.instructions = Nmos6502.processor.instructionSet)
    (hdocumented : nmos.undocumented = false)
    (hcmos : cmos.instructions = Cmos65C02.processor.instructionSet)
    (hlabels : cmos.labels = nmos.labels) (hregions : cmos.regions = nmos.regions)
    (hshown : cmos.showInvalid = nmos.showInvalid) (hstart : cmos.start = nmos.start)
    {source : Source} {stopAfter : Option Nat}
    (hvalid : ∀ unit ∈ (nmos.trace source stopAfter).units, ¬ nmos.ShowsInvalid unit) :
    cmos.trace source stopAfter = nmos.trace source stopAfter := by
  have hleadIns : cmos.instructions.leadIns = nmos.instructions.leadIns := by
    rw [hcmos, hnmos]
    exact Eq.refl []
  have hfollows : ∀ cursor, nmos.regions.at? cursor = none →
      nmos.toDecoder.Follows nmos.ShowsInvalid Eq cursor cmos.toDecoder cursor := by
    intro cursor houtside
    have hexcused : ∀ bytes, nmos.ShowsInvalid (nmos.toDecoder.invalid cursor bytes) :=
      fun bytes => ⟨houtside, rfl⟩
    exact {
      leadIns := hleadIns
      visible := fun key descriptor h =>
        ⟨Cmos65C02.visible?_of_nmos hnmos hcmos hdocumented h,
          Cmos65C02.format?_eq_nmos hnmos hcmos descriptor⟩
      hidden := fun key _ => Or.inr hexcused
      invalid := fun bytes => Or.inr (hexcused bytes)
      instruction := fun key descriptor format bytes operands _ _ =>
        (Decoder.instruction_congr hlabels hshown bytes operands).symm }
  have hstep : ∀ cursor source,
      InStep nmos.ShowsInvalid Eq (nmos.readAt cursor source) (cmos.readAt cursor source) :=
    fun cursor source =>
      readAt_inStep_of_regions hregions (fun _ _ _ => rfl) (hfollows cursor) source
  have hbytes : ∀ unit other : Line, unit = other → other.bytes = unit.bytes := by
    rintro unit - rfl
    rfl
  unfold trace at hvalid ⊢
  rw [hstart]
  exact (walk_alongside_of_eq hbytes hstep stopAfter nmos.start source hvalid).eq

/-- **A 65C02 runs documented 6502 code as a 6502 does**, with any options, labels and regions, over
    any source, into any sink: where the run of the 6502 shows no opcode that means nothing, the run
    of the 65C02 finds the same units and the same end, answers the same and writes the same. -/
theorem cmos_runs_documented (options : Options) (undocumented : Bool) (labels : LabelTable)
    (regions : RegionTable) (source : Source) (stopAfter : Option Nat) (sink : Sink) :
    let nmos : Disassembler :=
      { ofProcessor Nmos6502.processor { options with undocumented := false } with labels, regions }
    let cmos : Disassembler :=
      { ofProcessor Cmos65C02.processor { options with undocumented } with labels, regions }
    (∀ unit ∈ (nmos.trace source stopAfter).units, ¬ nmos.ShowsInvalid unit) →
      cmos.trace source stopAfter = nmos.trace source stopAfter ∧
      cmos.run source stopAfter sink = nmos.run source stopAfter sink := by
  intro nmos cmos hvalid
  have hnmos : nmos.instructions = Nmos6502.processor.instructionSet :=
    instructions_ofProcessor _ { options with undocumented := false }
  have hcmos : cmos.instructions = Cmos65C02.processor.instructionSet :=
    instructions_ofProcessor _ { options with undocumented }
  have htrace : cmos.trace source stopAfter = nmos.trace source stopAfter :=
    trace_of_documented hnmos (Eq.refl false) hcmos (Eq.refl labels) (Eq.refl regions)
      (Eq.refl options.showInvalid) (Eq.refl options.start) hvalid
  have hlayout : cmos.layout = nmos.layout := by
    unfold layout
    rw [hcmos, hnmos]
    exact congrArg (Layout.mk options.listing) (Eq.refl 3)
  exact ⟨htrace, run_congr htrace (Eq.refl options.start) (Eq.refl labels) hlayout sink⟩

/-- A load, a branch back to it past a table of one word, and a jump that the data cuts short; the
    listing has labels, and CMOS is asked for undocumented opcodes. -/
theorem cmos_runs_documented_truncated :
    let labels : LabelTable := .ofList [⟨"again", 0xFFFC⟩, ⟨"table", 0⟩]
    let regions : RegionTable := [⟨0, 1, .wordLittleEndian⟩]
    let source : Source := .ofBytes [0xA9, 0x42, 0xD0, 0xFC, 0x34, 0x12, 0x4C, 0x00]
    let nmos : Disassembler :=
      { ofProcessor Nmos6502.processor { start := 0xFFFC } with labels, regions }
    let cmos : Disassembler :=
      { ofProcessor Cmos65C02.processor { start := 0xFFFC, undocumented := true } with
        labels, regions }
    (∀ unit ∈ (nmos.trace source).units, ¬ nmos.ShowsInvalid unit) ∧
    (nmos.trace source).units.map (·.body) =
      [.instruction "lda" "#$42", .instruction "bne" "again", .directive ".word" "$1234"] ∧
    (nmos.trace source).ending = .truncated none ∧
    cmos.trace source = nmos.trace source ∧ cmos.run source = nmos.run source := by
  intro labels regions source nmos cmos
  have htrace : nmos.trace source =
      { units := [⟨0xFFFC, [0xA9, 0x42], .instruction "lda" "#$42"⟩,
          ⟨0xFFFE, [0xD0, 0xFC], .instruction "bne" "again"⟩,
          ⟨0, [0x34, 0x12], .directive ".word" "$1234"⟩]
        ending := .truncated none
        cursor := 2 } := by decide +kernel
  have hvalid : ∀ unit ∈ (nmos.trace source).units, ¬ nmos.ShowsInvalid unit := by
    rw [htrace]
    decide
  have hruns := cmos_runs_documented { start := 0xFFFC } true labels regions source none {} hvalid
  refine ⟨hvalid, ?_, ?_, hruns⟩
  · rw [htrace]
    rfl
  · rw [htrace]

end Disassembler

end Disassembly
