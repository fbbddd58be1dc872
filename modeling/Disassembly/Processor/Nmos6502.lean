import Disassembly.Processor
import Disassembly.Processor.Rows

/-!
# The 6502 in NMOS

256 opcodes: 151 that are documented and 105 that are not, which are there only when asked for.
The mode list is that of the whole family and serves the CMOS part as well.
-/

namespace Disassembly.Nmos6502

open Rows

/-! ## 1. Modes -/

def implied : Mode := ⟨"implied", .implied⟩
def accumulator : Mode := ⟨"accumulator", .fixed "a"⟩
def immediate : Mode := ⟨"immediate", .byte ⟨"#", ""⟩⟩
def zeroPage : Mode := ⟨"zeropage", .byte {}⟩
def zeroPageX : Mode := ⟨"zeropage,x", .byte ⟨"", ",x"⟩⟩
def zeroPageY : Mode := ⟨"zeropage,y", .byte ⟨"", ",y"⟩⟩
def relative : Mode := ⟨"relative", .relative8 {}⟩
def absolute : Mode := ⟨"absolute", .word .little {} true⟩
def absoluteX : Mode := ⟨"absolute,x", .word .little ⟨"", ",x"⟩ true⟩
def absoluteY : Mode := ⟨"absolute,y", .word .little ⟨"", ",y"⟩ true⟩
def indirect : Mode := ⟨"indirect", .word .little ⟨"(", ")"⟩ true⟩
def indexedIndirect : Mode := ⟨"(indirect,x)", .byte ⟨"(", ",x)"⟩⟩
def indirectIndexed : Mode := ⟨"(indirect),y", .byte ⟨"(", "),y"⟩⟩
def zeroPageIndirect : Mode := ⟨"(zeropage)", .byte ⟨"(", ")"⟩⟩
def absoluteIndexedIndirect : Mode := ⟨"(absolute,x)", .word .little ⟨"(", ",x)"⟩ true⟩

/-- A byte of the zero page to test, and where to go then. -/
def zeroPageRelative : Mode :=
  ⟨"zeropage,relative", .pieces [.byte 0, .text ",", .target]⟩

/-- The modes of the family. The last three are those of the CMOS part. -/
def modes : List Mode :=
  [implied, accumulator, immediate, zeroPage, zeroPageX, zeroPageY, relative, absolute, absoluteX,
   absoluteY, indirect, indexedIndirect, indirectIndexed,
   zeroPageIndirect, absoluteIndexedIndirect, zeroPageRelative]

/-! ## 2. Opcodes -/

/-- Where an instruction that works on the accumulator has its modes. -/
def arithmeticColumns : List (Nat × Mode) :=
  [(0x01, indexedIndirect), (0x05, zeroPage), (0x09, immediate), (0x0D, absolute),
   (0x11, indirectIndexed), (0x15, zeroPageX), (0x19, absoluteY), (0x1D, absoluteX)]

/-- Where a shift has its modes. -/
def shiftColumns : List (Nat × Mode) :=
  [(0x06, zeroPage), (0x0A, accumulator), (0x0E, absolute), (0x16, zeroPageX), (0x1E, absoluteX)]

/-- Where an undocumented instruction that changes a byte and the accumulator has its modes. -/
def combinedColumns : List (Nat × Mode) :=
  [(0x03, indexedIndirect), (0x07, zeroPage), (0x0F, absolute), (0x13, indirectIndexed),
   (0x17, zeroPageX), (0x1B, absoluteY), (0x1F, absoluteX)]

def documented : List Row :=
  sharing implied [(0x00, "brk"), (0x08, "php"), (0x18, "clc"), (0x28, "plp"), (0x38, "sec"),
    (0x40, "rti"), (0x48, "pha"), (0x58, "cli"), (0x60, "rts"), (0x68, "pla"), (0x78, "sei"),
    (0x88, "dey"), (0x8A, "txa"), (0x98, "tya"), (0x9A, "txs"), (0xA8, "tay"), (0xAA, "tax"),
    (0xB8, "clv"), (0xBA, "tsx"), (0xC8, "iny"), (0xCA, "dex"), (0xD8, "cld"), (0xE8, "inx"),
    (0xEA, "nop"), (0xF8, "sed")] ++
  sharing relative [(0x10, "bpl"), (0x30, "bmi"), (0x50, "bvc"), (0x70, "bvs"), (0x90, "bcc"),
    (0xB0, "bcs"), (0xD0, "bne"), (0xF0, "beq")] ++
  block arithmeticColumns [(0x00, "ora"), (0x20, "and"), (0x40, "eor"), (0x60, "adc"),
    (0xA0, "lda"), (0xC0, "cmp"), (0xE0, "sbc")] ++
  forms "sta" [(0x81, indexedIndirect), (0x85, zeroPage), (0x8D, absolute),
    (0x91, indirectIndexed), (0x95, zeroPageX), (0x99, absoluteY), (0x9D, absoluteX)] ++
  block shiftColumns [(0x00, "asl"), (0x20, "rol"), (0x40, "lsr"), (0x60, "ror")] ++
  forms "dec" [(0xC6, zeroPage), (0xCE, absolute), (0xD6, zeroPageX), (0xDE, absoluteX)] ++
  forms "inc" [(0xE6, zeroPage), (0xEE, absolute), (0xF6, zeroPageX), (0xFE, absoluteX)] ++
  forms "bit" [(0x24, zeroPage), (0x2C, absolute)] ++
  forms "jsr" [(0x20, absolute)] ++
  forms "jmp" [(0x4C, absolute), (0x6C, indirect)] ++
  forms "stx" [(0x86, zeroPage), (0x8E, absolute), (0x96, zeroPageY)] ++
  forms "sty" [(0x84, zeroPage), (0x8C, absolute), (0x94, zeroPageX)] ++
  forms "ldx" [(0xA2, immediate), (0xA6, zeroPage), (0xAE, absolute), (0xB6, zeroPageY),
    (0xBE, absoluteY)] ++
  forms "ldy" [(0xA0, immediate), (0xA4, zeroPage), (0xAC, absolute), (0xB4, zeroPageX),
    (0xBC, absoluteX)] ++
  forms "cpx" [(0xE0, immediate), (0xE4, zeroPage), (0xEC, absolute)] ++
  forms "cpy" [(0xC0, immediate), (0xC4, zeroPage), (0xCC, absolute)]

def undocumented : List Row := List.map Row.hidden <|
  block combinedColumns [(0x00, "slo"), (0x20, "rla"), (0x40, "sre"), (0x60, "rra"),
    (0xC0, "dcp"), (0xE0, "isc")] ++
  forms "sax" [(0x83, indexedIndirect), (0x87, zeroPage), (0x8F, absolute), (0x97, zeroPageY)] ++
  forms "lax" [(0xA3, indexedIndirect), (0xA7, zeroPage), (0xAF, absolute),
    (0xB3, indirectIndexed), (0xB7, zeroPageY), (0xBF, absoluteY)] ++
  forms "sha" [(0x93, indirectIndexed), (0x9F, absoluteY)] ++
  sharing immediate [(0x0B, "anc"), (0x2B, "anc"), (0x4B, "alr"), (0x6B, "arr"), (0x8B, "ane"),
    (0xAB, "lxa"), (0xCB, "sbx"), (0xEB, "sbc")] ++
  sharing absoluteY [(0x9B, "tas"), (0x9E, "shx"), (0xBB, "las")] ++
  sharing absoluteX [(0x9C, "shy")] ++
  forms "nop" [(0x1A, implied), (0x3A, implied), (0x5A, implied), (0x7A, implied),
    (0xDA, implied), (0xFA, implied), (0x80, immediate), (0x82, immediate), (0x89, immediate),
    (0xC2, immediate), (0xE2, immediate), (0x04, zeroPage), (0x44, zeroPage), (0x64, zeroPage),
    (0x14, zeroPageX), (0x34, zeroPageX), (0x54, zeroPageX), (0x74, zeroPageX),
    (0xD4, zeroPageX), (0xF4, zeroPageX), (0x0C, absolute), (0x1C, absoluteX), (0x3C, absoluteX),
    (0x5C, absoluteX), (0x7C, absoluteX), (0xDC, absoluteX), (0xFC, absoluteX)] ++
  sharing implied [(0x02, "jam"), (0x12, "jam"), (0x22, "jam"), (0x32, "jam"), (0x42, "jam"),
    (0x52, "jam"), (0x62, "jam"), (0x72, "jam"), (0x92, "jam"), (0xB2, "jam"), (0xD2, "jam"),
    (0xF2, "jam")]

/-! ## 3. The processor -/

def processor : Processor where
  id := "6502"
  description := "MOS Technology 6502 8-bit microprocessor"
  leadIns := []
  maxLength := 3
  modes := modes
  layers := [documented, undocumented].map entries

theorem processor_wellFormed : processor.WellFormed := by decide +kernel

end Disassembly.Nmos6502
