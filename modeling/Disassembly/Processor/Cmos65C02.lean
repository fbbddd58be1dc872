import Disassembly.Processor.Nmos6502

/-!
# The 65C02 in CMOS

The documented opcodes of the NMOS part, and on top of them those that CMOS brought, the bit
instructions included. The undocumented opcodes of the NMOS part do not exist here.
-/

namespace Disassembly.Cmos65C02

open Rows
open Nmos6502 (implied accumulator immediate zeroPage zeroPageX relative absolute absoluteX
  zeroPageIndirect absoluteIndexedIndirect zeroPageRelative)

/-- What CMOS brought. -/
def additions : List Row :=
  sharing zeroPageIndirect [(0x12, "ora"), (0x32, "and"), (0x52, "eor"), (0x72, "adc"),
    (0x92, "sta"), (0xB2, "lda"), (0xD2, "cmp"), (0xF2, "sbc")] ++
  sharing accumulator [(0x1A, "inc"), (0x3A, "dec")] ++
  sharing implied [(0x5A, "phy"), (0x7A, "ply"), (0xDA, "phx"), (0xFA, "plx"), (0xCB, "wai"),
    (0xDB, "stp")] ++
  forms "bra" [(0x80, relative)] ++
  forms "jmp" [(0x7C, absoluteIndexedIndirect)] ++
  forms "bit" [(0x34, zeroPageX), (0x3C, absoluteX), (0x89, immediate)] ++
  forms "stz" [(0x64, zeroPage), (0x74, zeroPageX), (0x9C, absolute), (0x9E, absoluteX)] ++
  forms "tsb" [(0x04, zeroPage), (0x0C, absolute)] ++
  forms "trb" [(0x14, zeroPage), (0x1C, absolute)] ++
  spread 0x07 0x10 bits (fun opcode bit => forms ("rmb" ++ bit) [(opcode, zeroPage)]) ++
  spread 0x87 0x10 bits (fun opcode bit => forms ("smb" ++ bit) [(opcode, zeroPage)]) ++
  spread 0x0F 0x10 bits (fun opcode bit => forms ("bbr" ++ bit) [(opcode, zeroPageRelative)]) ++
  spread 0x8F 0x10 bits (fun opcode bit => forms ("bbs" ++ bit) [(opcode, zeroPageRelative)])

def processor : Processor where
  id := "65c02"
  description := "Western Design Center 65C02 8-bit microprocessor"
  leadIns := []
  maxLength := 3
  modes := Nmos6502.modes
  layers := [Nmos6502.documented, additions].map entries

theorem processor_wellFormed : processor.WellFormed := by decide +kernel

end Disassembly.Cmos65C02
