import Disassembly.Processor
import Disassembly.Processor.Rows

/-!
# The 6809

Opcodes on the second and third page are led in by `$10` and `$11`. Indexed operands are shown as
the bare post-byte before `,x`: the post-bytes that call for more bytes are not followed up, nor
are the register lists of the push and pull instructions taken apart.
-/

namespace Disassembly.Motorola6809

open Rows

/-! ## 1. Modes -/

/-- The numbers of the registers in the post-byte of a transfer or exchange. -/
def registerNames : Vector String 16 :=
  #v["d", "x", "y", "u", "s", "pc", "?", "?", "a", "b", "cc", "dp", "?", "?", "?", "?"]

def inherent : Mode := ⟨"inherent", .implied⟩
def immediate8 : Mode := ⟨"imm8", .byte ⟨"#", ""⟩⟩
def immediate16 : Mode := ⟨"imm16", .word .big ⟨"#", ""⟩ false⟩
def direct : Mode := ⟨"direct", .byte {}⟩
def indexed : Mode := ⟨"indexed", .byte ⟨"", ",x"⟩⟩
def extended : Mode := ⟨"extended", .word .big {} true⟩
def relative8 : Mode := ⟨"rel8", .relative8 {}⟩
def relative16 : Mode := ⟨"rel16", .relative16 .big {}⟩
def registerPair : Mode := ⟨"r1,r2", .registerPair registerNames⟩
def registerList : Mode := ⟨"registers", .byte ⟨"#", ""⟩⟩

def modes : List Mode :=
  [inherent, immediate8, immediate16, direct, indexed, extended, relative8, relative16,
   registerPair, registerList]

/-! ## 2. Opcodes -/

/-- Where an instruction that changes a byte of memory has its modes. -/
def memoryColumns : List (Nat × Mode) := [(0x00, direct), (0x60, indexed), (0x70, extended)]

/-- Where an instruction has its modes that has no immediate one. -/
def storeColumns : List (Nat × Mode) := [(0x10, direct), (0x20, indexed), (0x30, extended)]

/-- Where an instruction on a register of one byte has its modes. -/
def byteColumns : List (Nat × Mode) := (0x00, immediate8) :: storeColumns

/-- Where an instruction on a register of two bytes has its modes. -/
def wordColumns : List (Nat × Mode) := (0x00, immediate16) :: storeColumns

/-- The conditions of branches, in the order of their opcodes, from always and never on. -/
def conditions : List String :=
  ["ra", "rn", "hi", "ls", "cc", "cs", "ne", "eq", "vc", "vs", "pl", "mi", "ge", "lt", "gt", "le"]

def firstPage : List Row :=
  sharing inherent [(0x12, "nop"), (0x13, "sync"), (0x19, "daa"), (0x1D, "sex"), (0x39, "rts"),
    (0x3A, "abx"), (0x3B, "rti"), (0x3D, "mul"), (0x3F, "swi"),
    (0x40, "nega"), (0x43, "coma"), (0x44, "lsra"), (0x46, "rora"), (0x47, "asra"),
    (0x48, "asla"), (0x49, "rola"), (0x4A, "deca"), (0x4C, "inca"), (0x4D, "tsta"),
    (0x4F, "clra"),
    (0x50, "negb"), (0x53, "comb"), (0x54, "lsrb"), (0x56, "rorb"), (0x57, "asrb"),
    (0x58, "aslb"), (0x59, "rolb"), (0x5A, "decb"), (0x5C, "incb"), (0x5D, "tstb"),
    (0x5F, "clrb")] ++
  sharing relative16 [(0x16, "lbra"), (0x17, "lbsr")] ++
  sharing immediate8 [(0x1A, "orcc"), (0x1C, "andcc"), (0x3C, "cwai")] ++
  sharing registerPair [(0x1E, "exg"), (0x1F, "tfr")] ++
  spread 0x20 1 conditions
    (fun opcode condition => forms ("b" ++ condition) [(opcode, relative8)]) ++
  sharing relative8 [(0x8D, "bsr")] ++
  sharing indexed [(0x30, "leax"), (0x31, "leay"), (0x32, "leas"), (0x33, "leau")] ++
  sharing registerList [(0x34, "pshs"), (0x35, "puls"), (0x36, "pshu"), (0x37, "pulu")] ++
  block memoryColumns [(0x00, "neg"), (0x03, "com"), (0x04, "lsr"), (0x06, "ror"), (0x07, "asr"),
    (0x08, "asl"), (0x09, "rol"), (0x0A, "dec"), (0x0C, "inc"), (0x0D, "tst"), (0x0E, "jmp"),
    (0x0F, "clr")] ++
  block byteColumns [(0x80, "suba"), (0x81, "cmpa"), (0x82, "sbca"), (0x84, "anda"),
    (0x85, "bita"), (0x86, "lda"), (0x88, "eora"), (0x89, "adca"), (0x8A, "ora"), (0x8B, "adda"),
    (0xC0, "subb"), (0xC1, "cmpb"), (0xC2, "sbcb"), (0xC4, "andb"), (0xC5, "bitb"), (0xC6, "ldb"),
    (0xC8, "eorb"), (0xC9, "adcb"), (0xCA, "orb"), (0xCB, "addb")] ++
  block wordColumns [(0x83, "subd"), (0x8C, "cmpx"), (0x8E, "ldx"), (0xC3, "addd"),
    (0xCC, "ldd"), (0xCE, "ldu")] ++
  block storeColumns [(0x87, "sta"), (0x8D, "jsr"), (0x8F, "stx"), (0xC7, "stb"), (0xCD, "std"),
    (0xCF, "stu")]

/-- The second page has a long form of every branch but the one that is always taken, which the
    first page has. -/
def otherPages : List Row :=
  spread 0x1021 1 conditions.tail
    (fun opcode condition => forms ("lb" ++ condition) [(opcode, relative16)]) ++
  sharing inherent [(0x103F, "swi2"), (0x113F, "swi3")] ++
  block wordColumns [(0x1083, "cmpd"), (0x108C, "cmpy"), (0x108E, "ldy"), (0x10CE, "lds"),
    (0x1183, "cmpu"), (0x118C, "cmps")] ++
  block storeColumns [(0x108F, "sty"), (0x10CF, "sts")]

/-! ## 3. The processor -/

def processor : Processor where
  id := "6809"
  description := "Motorola 6809 8-bit microprocessor"
  leadIns := [0x10, 0x11]
  maxLength := 4
  modes := modes
  layers := [firstPage, otherPages].map entries

theorem processor_wellFormed : processor.WellFormed := by decide +kernel

end Disassembly.Motorola6809
