import Std.Data.TreeMap
import Disassembly.Operand

/-!
# Opcodes and their table

An instruction is known by its opcode bytes, read as one number: the opcode byte itself; a lead-in
byte and the opcode byte behind it; or, where the opcode stands behind the operand, those two and
the trailing byte. This file fixes

* what an opcode list says about an instruction (`OpcodeEntry`);
* the table that a list of lists becomes: later definitions of an opcode replace earlier ones, and
  every replacement is on record (`InstructionTable.build`).
-/

namespace Disassembly

/-! ## 1. Opcodes as numbers -/

namespace Opcode

/-- The number of a list of opcode bytes, the first byte leading. -/
def ofBytes (bytes : List UInt8) : Nat :=
  bytes.foldl (fun number b => number * 256 + b.toNat) 0

/-- How many bytes an opcode of at most three takes. -/
def byteCount (opcode : Nat) : Nat :=
  if opcode < 0x100 then 1 else if opcode < 0x10000 then 2 else 3

end Opcode

/-! ## 2. What is known of an instruction -/

structure Flags where
  /-- The last operand is a displacement from the instruction that follows. -/
  pcRelative : Bool := false
  /-- Unofficial: not there unless asked for. -/
  undocumented : Bool := false
  /-- The last operand byte is really the end of the opcode. -/
  extended : Bool := false
deriving DecidableEq, Repr

/-- What decoding needs to know of an instruction. -/
structure Descriptor where
  /-- Bytes of the whole instruction, opcode bytes included. -/
  length : Nat
  mnemonic : String
  /-- The key of its addressing mode. -/
  mode : String
  flags : Flags := {}
deriving DecidableEq, Repr

/-- A line of an opcode list. -/
structure OpcodeEntry extends Descriptor where
  opcode : Nat
deriving DecidableEq, Repr

/-- The mnemonic of an opcode that means nothing. -/
def invalidMnemonic : String := "???"

/-! ## 3. Tables -/

/-- A definition that took the place of an earlier one. -/
structure Collision where
  opcode : Nat
  replaced : Descriptor
  kept : Descriptor
deriving DecidableEq, Repr

/-- The instructions of a processor by their opcodes, and the collisions met on the way. -/
structure InstructionTable where
  descriptors : Std.TreeMap Nat Descriptor := ∅
  /-- In the order in which they came about. -/
  collisions : List Collision := []

namespace InstructionTable

def get? (table : InstructionTable) (opcode : Nat) : Option Descriptor :=
  table.descriptors[opcode]?

/-- Defines an opcode, anew if need be. -/
def insert (table : InstructionTable) (entry : OpcodeEntry) : InstructionTable where
  descriptors := table.descriptors.insert entry.opcode entry.toDescriptor
  collisions := match table.get? entry.opcode with
    | some replaced =>
      table.collisions ++ [{ opcode := entry.opcode, replaced, kept := entry.toDescriptor }]
    | none => table.collisions

/-- The table of a list of layers, applied in order. A layer that redefines an opcode of an
    earlier one on purpose collides like any other. -/
def build (layers : List (List OpcodeEntry)) : InstructionTable :=
  layers.flatten.foldl insert {}

/-- How many opcodes are defined. -/
def size (table : InstructionTable) : Nat := table.descriptors.size

/-- The opcodes with their descriptors, in the order of the opcodes. -/
def toList (table : InstructionTable) : List (Nat × Descriptor) := table.descriptors.toList

end InstructionTable

end Disassembly
