import Disassembly.Processor
import Disassembly.Processor.Rows

/-!
# The Z80

Four lead-in bytes open further pages: `$CB` the bit operations, `$ED` a mixed one, and `$DD` and
`$FD` the forms with an index register. The last two are one page written twice, once for each
register (`indexPage`), and hold the one kind of instruction whose opcode goes on behind its
operand: the bit operations on an indexed cell, as in `$DD $CB` displacement opcode.

The key of a mode is the text of its operand, with `N`, `NN`, `D` and `E` where a byte, a word, a
displacement in memory and a branch target stand; the mode list is drawn from the opcode lists.
-/

namespace Disassembly.ZilogZ80

open Rows

/-! ## 1. Modes -/

def implied : Mode := ⟨"implied", .implied⟩

/-- An operand in which nothing of the input shows. -/
def fixed (text : String) : Mode := ⟨text, .fixed text⟩

/-- A byte that is a number of its own: a constant, or the address of a device. -/
def number (before after : String) : Mode := ⟨before ++ "N" ++ after, .byte ⟨before, after⟩⟩

/-- A byte that is the displacement of a cell from an index register. -/
def displaced (before after : String) : Mode := ⟨before ++ "D" ++ after, .byte ⟨before, after⟩⟩

/-- A word that is a number. -/
def wide (before : String) : Mode := ⟨before ++ "NN", .word .little ⟨before, ""⟩ false⟩

/-- A word that is an address. -/
def address (before after : String) : Mode :=
  ⟨before ++ "NN" ++ after, .word .little ⟨before, after⟩ true⟩

/-- The target of a branch. -/
def target (before : String) : Mode := ⟨before ++ "E", .relative8 ⟨before, ""⟩⟩

/-- A cell at an index register, and a number. -/
def displacedNumber (before : String) : Mode :=
  ⟨before ++ "D),N", .pieces [.text before, .byte 0, .text "),", .byte 1]⟩

/-! ## 2. Operands in the order of the opcodes -/

/-- The cell that register `hl` points to. -/
def memory : String := "(hl)"

/-- The operands of one byte. -/
def cells : List String := ["b", "c", "d", "e", "h", "l", memory, "a"]

/-- Rows for the registers of one byte; the place of the memory cell stays empty. -/
def spreadRegisters (base step : Nat) (rows : Nat → String → List Row) : List Row :=
  spread base step cells fun opcode cell => if cell = memory then [] else rows opcode cell

/-- The operands of two bytes, and those of the stack. -/
def pairs : List String := ["bc", "de", "hl", "sp"]
def stackPairs : List String := ["bc", "de", "hl", "af"]

def conditions : List String := ["nz", "z", "nc", "c", "po", "pe", "p", "m"]

/-- The operations on the accumulator, with what stands before their second operand. -/
def operations : List (String × String) :=
  [("add", "a,"), ("adc", "a,"), ("sub", ""), ("sbc", "a,"), ("and", ""), ("xor", ""), ("or", ""),
   ("cp", "")]

/-- The rotations and shifts. -/
def rotations : List String := ["rlc", "rrc", "rl", "rr", "sla", "sra", "sll", "srl"]

/-- One of the rotations is not documented. -/
def rotate (row : Row) : Row := if row.mnemonic = "sll" then row.hidden else row

/-- The operations on one bit. -/
def bitOperations : List String := ["bit", "res", "set"]

/-! ## 3. The first page -/

/-- The opcodes below `$40`: loads of numbers and through pointers, counting, short branches. -/
def firstQuarter : List Row :=
  sharing implied [(0x00, "nop"), (0x07, "rlca"), (0x0F, "rrca"), (0x17, "rla"), (0x1F, "rra"),
    (0x27, "daa"), (0x2F, "cpl"), (0x37, "scf"), (0x3F, "ccf")] ++
  forms "ex" [(0x08, fixed "af,af'")] ++
  forms "djnz" [(0x10, target "")] ++
  forms "jr" [(0x18, target ""), (0x20, target "nz,"), (0x28, target "z,"), (0x30, target "nc,"),
    (0x38, target "c,")] ++
  spread 0x01 0x10 pairs (fun opcode pair => forms "ld" [(opcode, wide (pair ++ ","))]) ++
  spread 0x09 0x10 pairs (fun opcode pair => forms "add" [(opcode, fixed ("hl," ++ pair))]) ++
  forms "ld" [(0x02, fixed "(bc),a"), (0x0A, fixed "a,(bc)"), (0x12, fixed "(de),a"),
    (0x1A, fixed "a,(de)"), (0x22, address "(" "),hl"), (0x2A, address "hl,(" ")"),
    (0x32, address "(" "),a"), (0x3A, address "a,(" ")")] ++
  spread 0x03 0x10 pairs (fun opcode pair => forms "inc" [(opcode, fixed pair)]) ++
  spread 0x0B 0x10 pairs (fun opcode pair => forms "dec" [(opcode, fixed pair)]) ++
  spread 0x04 8 cells (fun opcode cell => forms "inc" [(opcode, fixed cell)]) ++
  spread 0x05 8 cells (fun opcode cell => forms "dec" [(opcode, fixed cell)]) ++
  spread 0x06 8 cells (fun opcode cell => forms "ld" [(opcode, number (cell ++ ",") "")])

/-- The opcodes from `$40` on: every cell into every other, but for the memory cell into itself,
    whose opcode stops the processor. -/
def loads : List Row :=
  spread 0x40 8 cells fun base destination =>
    spread base 1 cells fun opcode cell =>
      if destination = memory ∧ cell = memory then sharing implied [(opcode, "halt")]
      else forms "ld" [(opcode, fixed (destination ++ "," ++ cell))]

/-- The opcodes from `$80` on: every operation with every cell. -/
def arithmetic : List Row :=
  spread 0x80 8 operations fun base (mnemonic, before) =>
    spread base 1 cells fun opcode cell => forms mnemonic [(opcode, fixed (before ++ cell))]

/-- The opcodes from `$C0` on: returns, jumps, calls, the stack, operations with a number. -/
def lastQuarter : List Row :=
  spread 0xC0 8 conditions (fun opcode condition => forms "ret" [(opcode, fixed condition)]) ++
  spread 0xC2 8 conditions
    (fun opcode condition => forms "jp" [(opcode, address (condition ++ ",") "")]) ++
  spread 0xC4 8 conditions
    (fun opcode condition => forms "call" [(opcode, address (condition ++ ",") "")]) ++
  spread 0xC1 0x10 stackPairs (fun opcode pair => forms "pop" [(opcode, fixed pair)]) ++
  spread 0xC5 0x10 stackPairs (fun opcode pair => forms "push" [(opcode, fixed pair)]) ++
  spread 0xC6 8 operations
    (fun opcode (mnemonic, before) => forms mnemonic [(opcode, number before "")]) ++
  spread 0xC7 8 ["$00", "$08", "$10", "$18", "$20", "$28", "$30", "$38"]
    (fun opcode place => forms "rst" [(opcode, fixed place)]) ++
  sharing implied [(0xC9, "ret"), (0xD9, "exx"), (0xF3, "di"), (0xFB, "ei")] ++
  forms "jp" [(0xC3, address "" ""), (0xE9, fixed "(hl)")] ++
  forms "call" [(0xCD, address "" "")] ++
  forms "out" [(0xD3, number "(" "),a")] ++
  forms "in" [(0xDB, number "a,(" ")")] ++
  forms "ex" [(0xE3, fixed "(sp),hl"), (0xEB, fixed "de,hl")] ++
  forms "ld" [(0xF9, fixed "sp,hl")]

def firstPage : List Row := firstQuarter ++ loads ++ arithmetic ++ lastQuarter

/-! ## 4. The bit page -/

def bitPage : List Row :=
  spread 0xCB00 8 rotations (fun base mnemonic =>
    spread base 1 cells fun opcode cell => (forms mnemonic [(opcode, fixed cell)]).map rotate) ++
  spread 0xCB40 0x40 bitOperations (fun base mnemonic =>
    spread base 8 bits fun base bit =>
      spread base 1 cells fun opcode cell => forms mnemonic [(opcode, fixed (bit ++ "," ++ cell))])

/-! ## 5. The mixed page -/

def mixedPage : List Row :=
  spreadRegisters 0xED40 8 (fun opcode cell => forms "in" [(opcode, fixed (cell ++ ",(c)"))]) ++
  spreadRegisters 0xED41 8 (fun opcode cell => forms "out" [(opcode, fixed ("(c)," ++ cell))]) ++
  spread 0xED42 0x10 pairs (fun opcode pair => forms "sbc" [(opcode, fixed ("hl," ++ pair))]) ++
  spread 0xED4A 0x10 pairs (fun opcode pair => forms "adc" [(opcode, fixed ("hl," ++ pair))]) ++
  spread 0xED43 0x10 pairs
    (fun opcode pair => forms "ld" [(opcode, address "(" (")," ++ pair))]) ++
  spread 0xED4B 0x10 pairs
    (fun opcode pair => forms "ld" [(opcode, address (pair ++ ",(") ")")]) ++
  sharing implied [(0xED44, "neg"), (0xED45, "retn"), (0xED4D, "reti"), (0xED67, "rrd"),
    (0xED6F, "rld")] ++
  forms "im" [(0xED46, fixed "0"), (0xED56, fixed "1"), (0xED5E, fixed "2")] ++
  forms "ld" [(0xED47, fixed "i,a"), (0xED4F, fixed "r,a"), (0xED57, fixed "a,i"),
    (0xED5F, fixed "a,r")] ++
  sharing implied [(0xEDA0, "ldi"), (0xEDA1, "cpi"), (0xEDA2, "ini"), (0xEDA3, "outi"),
    (0xEDA8, "ldd"), (0xEDA9, "cpd"), (0xEDAA, "ind"), (0xEDAB, "outd"), (0xEDB0, "ldir"),
    (0xEDB1, "cpir"), (0xEDB2, "inir"), (0xEDB3, "otir"), (0xEDB8, "lddr"), (0xEDB9, "cpdr"),
    (0xEDBA, "indr"), (0xEDBB, "otdr")]

/-! ## 6. The index pages -/

/-- The bit operations on a cell at an index register. Their opcodes stand behind the
    displacement, and so at the end of the three opcode bytes. -/
def indexBitPage (base : Nat) (cell : String) : List Row :=
  spread (base + 0x06) 8 rotations
    (fun opcode mnemonic => (forms mnemonic [(opcode, displaced cell ")")]).map rotate) ++
  spread (base + 0x46) 0x40 bitOperations (fun base mnemonic =>
    spread base 8 bits fun opcode bit =>
      forms mnemonic [(opcode, displaced (bit ++ "," ++ cell) ")")])

/-- The page of an index register, opened by the byte `lead`. What reaches into one half of the
    register is not documented. -/
def indexPage (lead : Nat) (register : String) : List Row :=
  let page := lead * 0x100
  let cell := "(" ++ register ++ "+"
  let high := register ++ "h"
  let low := register ++ "l"
  spread (page + 0x09) 0x10 ["bc", "de", register, "sp"]
    (fun opcode pair => forms "add" [(opcode, fixed (register ++ "," ++ pair))]) ++
  forms "ld" [(page + 0x21, wide (register ++ ",")), (page + 0x22, address "(" (")," ++ register)),
    (page + 0x2A, address (register ++ ",(") ")"), (page + 0x36, displacedNumber cell),
    (page + 0xF9, fixed ("sp," ++ register))] ++
  forms "inc" [(page + 0x23, fixed register), (page + 0x34, displaced cell ")")] ++
  forms "dec" [(page + 0x2B, fixed register), (page + 0x35, displaced cell ")")] ++
  (forms "inc" [(page + 0x24, fixed high), (page + 0x2C, fixed low)] ++
    forms "dec" [(page + 0x25, fixed high), (page + 0x2D, fixed low)] ++
    forms "ld" [(page + 0x26, number (high ++ ",") ""), (page + 0x2E, number (low ++ ",") ""),
      (page + 0x7C, fixed ("a," ++ high)), (page + 0x7D, fixed ("a," ++ low))] ++
    forms "add" [(page + 0x84, fixed ("a," ++ high)), (page + 0x85, fixed ("a," ++ low))]).map
      Row.hidden ++
  spreadRegisters (page + 0x46) 8
    (fun opcode destination =>
      forms "ld" [(opcode, displaced (destination ++ "," ++ cell) ")")]) ++
  spreadRegisters (page + 0x70) 1
    (fun opcode origin => forms "ld" [(opcode, displaced cell (")," ++ origin))]) ++
  spread (page + 0x86) 8 operations
    (fun opcode (mnemonic, before) => forms mnemonic [(opcode, displaced (before ++ cell) ")")]) ++
  forms "pop" [(page + 0xE1, fixed register)] ++
  forms "ex" [(page + 0xE3, fixed ("(sp)," ++ register))] ++
  forms "push" [(page + 0xE5, fixed register)] ++
  forms "jp" [(page + 0xE9, fixed ("(" ++ register ++ ")"))] ++
  [{ opcode := page + 0xCB, mnemonic := invalidMnemonic, mode := displaced cell ")",
     continued := true }] ++
  indexBitPage ((page + 0xCB) * 0x100) cell

/-! ## 7. The processor -/

/-- The pages, each a layer of its own. -/
def pages : List (List Row) :=
  [firstPage, bitPage, mixedPage, indexPage 0xDD "ix", indexPage 0xFD "iy"]

def processor : Processor where
  id := "z80"
  description := "Zilog Z80 8-bit microprocessor"
  leadIns := [0xCB, 0xDD, 0xED, 0xFD]
  maxLength := 4
  modes := pages.flatten.map Row.mode
  layers := pages.map entries

/-- No instruction is longer than four bytes. -/
theorem entry_length_le : ∀ row ∈ pages.flatten, row.entry.length ≤ 4 := by decide +kernel

/-- Every mode is there because the mode list is drawn from the pages themselves. -/
theorem processor_wellFormed : processor.WellFormed := by
  refine ⟨by decide, by decide, fun layer hlayer entry hentry => ?_⟩
  obtain ⟨page, hpage, rfl⟩ := List.mem_map.1 hlayer
  obtain ⟨row, hrow, rfl⟩ := List.mem_map.1 hentry
  have hmem : row ∈ pages.flatten := List.mem_flatten.2 ⟨page, hpage, hrow⟩
  exact ⟨row.one_le_length_entry, entry_length_le row hmem, row.mode,
    List.mem_map.2 ⟨row, hmem, rfl⟩, rfl⟩

end Disassembly.ZilogZ80
