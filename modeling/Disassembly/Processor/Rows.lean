import Disassembly.Opcode

/-!
# Writing opcode lists

The processors' opcode lists are lists of rows. A row holds the mode of its instruction, not a key
to look it up by, so it says by itself how long the instruction is and whether it branches.

Opcode maps are regular: instructions with the same modes keep them at the same distances from
each other, and families of instructions stand at equal distances themselves. The lists are
written with the shapes of section 2, one for each regularity.
-/

namespace Disassembly

/-! ## 1. Rows -/

/-- An instruction as the lists write it. -/
structure Row where
  opcode : Nat
  mnemonic : String
  mode : Mode
  undocumented : Bool := false
  /-- The opcode goes on behind the operand. -/
  continued : Bool := false
deriving DecidableEq, Repr

namespace Row

def hidden (row : Row) : Row := { row with undocumented := true }

/-- What decoding needs to know of a row. The instruction is as long as its opcode and its
    operand, and one byte longer where the opcode goes on. -/
def entry (row : Row) : OpcodeEntry where
  opcode := row.opcode
  length :=
    Opcode.byteCount row.opcode + row.mode.format.size + (if row.continued then 1 else 0)
  mnemonic := row.mnemonic
  mode := row.mode.key
  flags :=
    { pcRelative := row.mode.format.isRelative
      undocumented := row.undocumented
      extended := row.continued }

/-- An instruction has at least its opcode. -/
theorem one_le_length_entry (row : Row) : 1 ≤ row.entry.length := by
  have hcount : 1 ≤ Opcode.byteCount row.opcode := by
    unfold Opcode.byteCount
    split
    · exact Nat.le_refl 1
    · split <;> decide
  exact Nat.le_trans hcount (Nat.le_trans (Nat.le_add_right _ _) (Nat.le_add_right _ _))

end Row

/-! ## 2. Shapes -/

namespace Rows

/-- One instruction in several modes. -/
def forms (mnemonic : String) (opcodes : List (Nat × Mode)) : List Row :=
  opcodes.map fun (opcode, mode) => { opcode, mnemonic, mode }

/-- Several instructions of one mode. -/
def sharing (mode : Mode) (opcodes : List (Nat × String)) : List Row :=
  opcodes.map fun (opcode, mnemonic) => { opcode, mnemonic, mode }

/-- Instructions that have the same modes at the same distances from a base opcode. -/
def block (columns : List (Nat × Mode)) (members : List (Nat × String)) : List Row :=
  members.flatMap fun (base, mnemonic) =>
    columns.map fun (distance, mode) => { opcode := base + distance, mnemonic, mode }

/-- A family whose members stand `step` apart, the first at `base`. A member may be left out, or
    be a family of its own. -/
def spread (base step : Nat) (members : List α) (rows : Nat → α → List Row) : List Row :=
  members.zipIdx.flatMap fun (member, index) => rows (base + step * index) member

/-- The numbers of the bits of a byte, as they stand in operands and mnemonics. -/
def bits : List String := ["0", "1", "2", "3", "4", "5", "6", "7"]

/-- The opcode list of a list of rows. -/
def entries (rows : List Row) : List OpcodeEntry := rows.map Row.entry

end Rows

end Disassembly
