import Disassembly.Proofs.Instructions

/-!
# Units delimit themselves

How long an instruction is comes out in stages: a lead-in byte asks for a second opcode byte, a
known opcode for as many bytes as it declares, and an opcode that goes on behind its operand is
looked up once more. Whichever stage ends a unit, it has looked at no byte behind the unit. So the
bytes of units are a prefix-free code:

* they settle the unit by themselves, whatever stands behind them (`scan?_append`);
* less than all of them settle nothing (`scan?_of_proper_prefix`), and decoding runs out;
* an opcode with an unknown mode is given up before its operand is read, unless it is the one that
  was looked up last (`yields_of_unknownMode`).
-/

namespace Disassembly

/-! ## 1. Sources that hold some bytes -/

namespace Source

/-- The source has these bytes ahead, and behind them the data ends. -/
def Holds (source : Source) (bytes : List UInt8) : Prop :=
  source.ahead = bytes ∧ source.faultAhead = none

theorem holds_ofBytes (bytes : List UInt8) : (ofBytes bytes).Holds bytes :=
  ⟨ahead_ofBytes bytes, faultAhead_ofBytes bytes⟩

/-- Where a source runs out of bytes, it answers that the data ends there, or with a fault. -/
theorem RunsOut.cases {source : Source} {atEnd : Reading} {answer : Reading × Source}
    (h : source.RunsOut atEnd answer) :
    source.faultAhead = none ∧ answer = (atEnd, source.spent) ∨
      ∃ detail, source.faultAhead = some detail ∧ answer.1 = .failed (.io detail) := by
  cases hfault : source.faultAhead with
  | none => exact Or.inl ⟨rfl, h.ended hfault⟩
  | some detail => exact Or.inr ⟨detail, rfl, h.faulted detail hfault⟩

end Source

/-! ## 2. What some bytes settle -/

namespace Decoder

variable {decoder : Decoder} {address : Address} {opcode bytes part : List UInt8} {scan : Scan}
  {source : Source}

/-- What some bytes settle is settled whatever comes behind them. -/
theorem scan?_append (h : decoder.scan? address bytes = some scan) (more : List UInt8) :
    decoder.scan? address (bytes ++ more) = some scan := by
  obtain ⟨-, ⟨rest, rfl⟩, -, hlocal⟩ := scan?_spec h
  rw [List.append_assoc]
  exact hlocal (rest ++ more)

/-- The bytes that were taken settle the same by themselves. -/
theorem scan?_taken (h : decoder.scan? address bytes = some scan) :
    decoder.scan? address scan.taken = some scan := by
  obtain ⟨-, -, -, hlocal⟩ := scan?_spec h
  have halone := hlocal []
  rw [List.append_nil] at halone
  exact halone

/-- **Less than all the bytes that were taken settle nothing.** If they did, they would settle the
    same with the others behind them, and take no more than there were. -/
theorem scan?_of_proper_prefix (h : decoder.scan? address bytes = some scan)
    (hpart : part <+: scan.taken) (hproper : part ≠ scan.taken) :
    decoder.scan? address part = none := by
  cases hshort : decoder.scan? address part with
  | none => rfl
  | some other =>
    obtain ⟨others, hothers⟩ := hpart
    have hlonger := scan?_append hshort others
    rw [hothers, scan?_taken h] at hlonger
    obtain rfl : scan = other := Option.some.inj hlonger
    obtain ⟨-, htaken, -⟩ := scan?_spec hshort
    have hinitial : part <+: scan.taken := ⟨others, hothers⟩
    exact absurd (hinitial.eq_of_length_le htaken.length_le) hproper

/-! ## 3. What is decoded -/

/-- What is decoded is settled by the bytes ahead, which are then taken from the source; or these
    settle nothing and the source runs out of them. -/
theorem scan?_of_decode {reading : Reading} {rest : Source}
    (h : decoder.decode address source = (reading, rest)) :
    (∃ taken, decoder.scan? address source.ahead = some { reading, taken } ∧
      source.Yields taken rest) ∨
    decoder.scan? address source.ahead = none ∧
      source.RunsOut (if source.ahead = [] then .endOfData else .truncated none)
        (reading, rest) := by
  cases hscan : decoder.scan? address source.ahead with
  | none => exact Or.inr ⟨rfl, h ▸ decode_of_none hscan⟩
  | some scan =>
    obtain ⟨after, hdecode, hyields⟩ := decode_of_scan hscan
    rw [h] at hdecode
    cases hdecode
    exact Or.inl ⟨scan.taken, rfl, hyields⟩

/-- A source that runs out of bytes answers no unit, and not that a mode is unknown. -/
theorem runsOut_ne {atEnd : Reading} {answer : Reading × Source}
    (hend : atEnd = .endOfData ∨ atEnd = .truncated none) (h : source.RunsOut atEnd answer) :
    (∀ unit, answer.1 ≠ .line unit) ∧
      ∀ mode key, answer.1 ≠ .failed (.unknownMode mode key) := by
  rcases h.cases with ⟨-, rfl⟩ | ⟨detail, -, hio⟩
  · rcases hend with rfl | rfl
    · exact ⟨nofun, nofun⟩
    · exact ⟨nofun, nofun⟩
  · rw [hio]
    exact ⟨nofun, nofun⟩

/-- At the end of the data an instruction is cut short, unless it was not begun. -/
theorem atEnd_cases (bytes : List UInt8) :
    (if bytes = [] then Reading.endOfData else .truncated none) = .endOfData ∨
      (if bytes = [] then Reading.endOfData else .truncated none) = .truncated none := by
  split
  · exact Or.inl rfl
  · exact Or.inr rfl

/-- A unit that is decoded is settled by its own bytes, and these are what is taken. -/
theorem scan?_of_decode_line {unit : Line} {rest : Source}
    (h : decoder.decode address source = (.line unit, rest)) :
    decoder.scan? address source.ahead = some { reading := .line unit, taken := unit.bytes } ∧
      source.Yields unit.bytes rest := by
  rcases scan?_of_decode h with ⟨taken, hscan, hyields⟩ | ⟨-, hout⟩
  · obtain ⟨-, -, ⟨-, rfl⟩, -⟩ := scan?_spec hscan
    exact ⟨hscan, hyields⟩
  · exact absurd rfl ((runsOut_ne (atEnd_cases _) hout).1 unit)

/-- That there is no data is what is answered at the end of the data, and only there. -/
theorem decode_endOfData_iff (decoder : Decoder) (address : Address) (source : Source) :
    (decoder.decode address source).1 = .endOfData ↔
      source.ahead = [] ∧ source.faultAhead = none := by
  cases hdecode : decoder.decode address source with
  | mk reading rest =>
    constructor
    · rintro rfl
      rcases scan?_of_decode hdecode with ⟨taken, hscan, -⟩ | ⟨-, hout⟩
      · obtain ⟨-, -, hsettled, -⟩ := scan?_spec hscan
        cases hsettled
      · rcases hout.cases with ⟨hfault, hanswer⟩ | ⟨detail, -, hio⟩
        · split at hanswer
          · rename_i hempty
            exact ⟨hempty, hfault⟩
          · cases hanswer
        · cases hio
    · rintro ⟨hempty, hfault⟩
      have hnone : decoder.scan? address source.ahead = none := by
        rw [hempty]
        rfl
      rw [← hdecode, (decode_of_none hnone).ended hfault, if_pos hempty]

/-- `decoder.Opens opcode bytes`: the opcode bytes at the front of `bytes` are `opcode`, one byte,
    or a lead-in byte and the one behind it. -/
def Opens (decoder : Decoder) (opcode bytes : List UInt8) : Prop :=
  opcode <+: bytes ∧
    ((∃ first, opcode = [first] ∧ first ∉ decoder.instructions.leadIns) ∨
      ∃ first second, opcode = [first, second] ∧ first ∈ decoder.instructions.leadIns)

theorem completeExtended_unknownMode {operands : List UInt8} {mode : String} {key : Nat}
    (h : decoder.completeExtended address opcode operands = .failed (.unknownMode mode key)) :
    ∃ last descriptor, operands.getLast? = some last ∧ key = Opcode.ofBytes (opcode ++ [last]) ∧
      decoder.visible? key = some descriptor ∧ decoder.format? descriptor = none := by
  unfold completeExtended at h
  cases hlast : operands.getLast? with
  | none =>
    rw [hlast] at h
    cases h
  | some last =>
    rw [hlast] at h
    dsimp only at h
    cases hvisible : decoder.visible? (Opcode.ofBytes (opcode ++ [last])) with
    | none =>
      rw [hvisible] at h
      cases h
    | some descriptor =>
      rw [hvisible] at h
      dsimp only at h
      cases hformat : decoder.format? descriptor with
      | none =>
        rw [hformat] at h
        cases h
        exact ⟨last, descriptor, rfl, rfl, hvisible, hformat⟩
      | some format =>
        rw [hformat] at h
        cases h

/-- **Where an unknown mode is met.** If it is that of the opcode in front of the operand, only this
    opcode has been taken; any other opcode is one that ends with the last byte taken. -/
theorem yields_of_unknownMode {mode : String} {key : Nat} {rest : Source}
    (h : decoder.decode address source = (.failed (.unknownMode mode key), rest)) :
    ∃ opcode, decoder.Opens opcode source.ahead ∧
      (key = Opcode.ofBytes opcode ∧ source.Yields opcode rest ∨
        key ≠ Opcode.ofBytes opcode ∧ ∃ operands last, operands.getLast? = some last ∧
          key = Opcode.ofBytes (opcode ++ [last]) ∧ source.Yields (opcode ++ operands) rest) := by
  rcases scan?_of_decode h with ⟨taken, hscan, hyields⟩ | ⟨-, hout⟩
  · obtain ⟨opcode, behind, hahead, hfrom, hopcode⟩ := exists_opcode_of_scan? hscan
    refine ⟨opcode, ⟨⟨behind, hahead.symm⟩, hopcode⟩, ?_⟩
    rcases scanFrom?_cases hfrom with ⟨-, hinvalid⟩ | ⟨descriptor, -, -, hunknown⟩ |
      ⟨descriptor, format, hvisible, hformat, -, hcomplete⟩
    · cases hinvalid
    · cases hunknown
      exact Or.inl ⟨rfl, hyields⟩
    · have hreading := congrArg Scan.reading hcomplete
      have htaken := congrArg Scan.taken hcomplete
      dsimp only at hreading htaken
      unfold complete at hreading
      split at hreading
      · obtain ⟨last, other, hlast, hkey, hother, hnone⟩ :=
          completeExtended_unknownMode hreading.symm
        refine Or.inr ⟨fun hfront => ?_, _, last, hlast, hkey, htaken ▸ hyields⟩
        -- the opcode in front of the operand has a format, so it is not the one that lacks it
        rw [hfront, hvisible] at hother
        cases hother
        rw [hformat] at hnone
        cases hnone
      · cases hreading
  · exact absurd rfl ((runsOut_ne (atEnd_cases _) hout).2 mode key)

/-! ## 4. Prefix-free units -/

/-- **The bytes of units are a prefix-free code.** Let a source hold some bytes. If a unit is
    decoded from it, the bytes of the unit are the first of these and are what is taken; with more
    bytes behind them the same unit is decoded and as much is taken; from fewer bytes than the unit
    has, but some, decoding runs out and takes them all; and no other unit at this address has bytes
    that begin with those of this one. That there is no data is answered where there is none. And
    where the mode of an opcode is unknown, which is looked up first by the opcode bytes in front,
    nothing but these has been taken if it is their opcode that is named. -/
theorem units_prefix_free (decoder : Decoder) (address : Address) (bytes : List UInt8)
    (source : Source) (hsource : source.Holds bytes) :
    (∀ unit rest, decoder.decode address source = (.line unit, rest) →
      unit.bytes <+: bytes ∧ source.Yields unit.bytes rest ∧
      (∀ more (longer : Source), longer.Holds (bytes ++ more) →
        ∃ behind, decoder.decode address longer = (.line unit, behind) ∧
          longer.Yields unit.bytes behind) ∧
      (∀ part, part ≠ [] → part <+: unit.bytes → part ≠ unit.bytes →
        ∀ shorter : Source, shorter.Holds part →
          decoder.decode address shorter = (.truncated none, shorter.spent)) ∧
      ∀ (other : Source) another behind,
        decoder.decode address other = (.line another, behind) →
          unit.bytes <+: another.bytes → another = unit) ∧
    ((decoder.decode address source).1 = .endOfData ↔ bytes = []) ∧
    ∀ mode key rest, decoder.decode address source = (.failed (.unknownMode mode key), rest) →
      ∃ opcode, decoder.Opens opcode bytes ∧
        (key = Opcode.ofBytes opcode → source.Yields opcode rest) ∧
        (key ≠ Opcode.ofBytes opcode → ∃ operands last, operands.getLast? = some last ∧
          key = Opcode.ofBytes (opcode ++ [last]) ∧ source.Yields (opcode ++ operands) rest) := by
  obtain ⟨rfl, hfault⟩ := hsource
  refine ⟨fun unit rest hline => ?_, ?_, fun mode key rest hunknown => ?_⟩
  · obtain ⟨hscan, hyields⟩ := scan?_of_decode_line hline
    refine ⟨⟨rest.ahead, hyields.ahead.symm⟩, hyields, fun more longer hlonger => ?_,
      fun part hbegun hpart hproper shorter hshorter => ?_,
      fun other another behind hother hinitial => ?_⟩
    · have hsame := scan?_append hscan more
      rw [← hlonger.1] at hsame
      exact decode_of_scan hsame
    · have hnone := scan?_of_proper_prefix hscan hpart hproper
      rw [← hshorter.1] at hnone
      rw [(decode_of_none hnone).ended hshorter.2, hshorter.1, if_neg hbegun]
    · obtain ⟨hanother, -⟩ := scan?_of_decode_line hother
      by_cases hsame : unit.bytes = another.bytes
      · have hunit := scan?_taken hscan
        rw [hsame, scan?_taken hanother] at hunit
        cases hunit
        rfl
      · have hnone := scan?_of_proper_prefix hanother hinitial hsame
        rw [scan?_taken hscan] at hnone
        cases hnone
  · rw [decode_endOfData_iff, and_iff_left hfault]
  · obtain ⟨opcode, hopens, ⟨hkey, hyields⟩ | ⟨hkey, hbehind⟩⟩ := yields_of_unknownMode hunknown
    · exact ⟨opcode, hopens, fun _ => hyields, fun hother => absurd hkey hother⟩
    · exact ⟨opcode, hopens, fun hfront => absurd hfront hkey, fun _ => hbehind⟩

/-- A decoder of two instructions behind one lead-in byte: a long branch, and one whose mode is not
    declared. -/
def halfDeclared : Decoder where
  instructions := Processor.instructionSet
    { id := "half", description := "Half declared", leadIns := [0x10], maxLength := 4
      modes := [⟨"rel16", .relative16 .big {}⟩]
      layers :=
        [[{ opcode := 0x1026, length := 4, mnemonic := "lbne", mode := "rel16",
            flags := { pcRelative := true } },
          { opcode := 0x103A, length := 3, mnemonic := "abx", mode := "missing" }]] }

/-- The branch is decoded with a byte behind it, and not from three of its bytes; of the other
    instruction no operand byte is taken. -/
theorem units_prefix_free_half_declared :
    let branch : Line := ⟨0x2000, [0x10, 0x26, 0xFF, 0xFC], .instruction "lbne" "$2000"⟩
    (Source.ofBytes [0x10, 0x26, 0xFF, 0xFC]).Holds [0x10, 0x26, 0xFF, 0xFC] ∧
    halfDeclared.decode 0x2000 (.ofBytes [0x10, 0x26, 0xFF, 0xFC]) =
      (.line branch, { pending := [], consumed := 4 }) ∧
    (∃ behind, halfDeclared.decode 0x2000 (.ofBytes [0x10, 0x26, 0xFF, 0xFC, 0x3A]) =
      (.line branch, behind)) ∧
    halfDeclared.decode 0x2000 (.ofBytes [0x10, 0x26, 0xFF]) =
      (.truncated none, (Source.ofBytes [0x10, 0x26, 0xFF]).spent) ∧
    ∃ rest, halfDeclared.decode 0x2000 (.ofBytes [0x10, 0x3A, 0x42]) =
      (.failed (.unknownMode "missing" 0x103A), rest) ∧ rest.ahead = [0x42] := by
  intro branch
  have hline : halfDeclared.decode 0x2000 (.ofBytes [0x10, 0x26, 0xFF, 0xFC]) =
      (.line branch, { pending := [], consumed := 4 }) := by decide +kernel
  have hunknown : halfDeclared.decode 0x2000 (.ofBytes [0x10, 0x3A, 0x42]) =
      (.failed (.unknownMode "missing" 0x103A), { pending := [.byte 0x42], consumed := 2 }) := by
    decide +kernel
  have hholds := Source.holds_ofBytes [0x10, 0x26, 0xFF, 0xFC]
  obtain ⟨hunits, -, -⟩ := units_prefix_free halfDeclared 0x2000 _ _ hholds
  obtain ⟨-, -, hlonger, hshorter, -⟩ := hunits branch _ hline
  obtain ⟨behind, hbehind, -⟩ := hlonger [0x3A] _ (Source.holds_ofBytes _)
  have hcut := hshorter [0x10, 0x26, 0xFF] (by decide) ⟨[0xFC], rfl⟩ (by decide) _
    (Source.holds_ofBytes _)
  obtain ⟨-, -, hmodes⟩ :=
    units_prefix_free halfDeclared 0x2000 _ _ (Source.holds_ofBytes [0x10, 0x3A, 0x42])
  obtain ⟨opcode, ⟨-, hopcode⟩, -, -⟩ := hmodes _ _ _ hunknown
  exact ⟨hholds, hline, ⟨behind, hbehind⟩, hcut, _, hunknown, rfl⟩

end Decoder

end Disassembly
