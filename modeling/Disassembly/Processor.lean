import Disassembly.Decoder

/-!
# Processors

A processor is described by data alone: what it is called, which bytes lead in opcodes of two
bytes, its addressing modes and its opcode lists. Nothing asks that the description makes sense;
`WellFormed` says when it does. The registered processors are all of that kind.
-/

namespace Disassembly

/-- The description of a processor. -/
structure Processor where
  /-- What it is selected by. -/
  id : String
  /-- One line for people. -/
  description : String
  /-- The bytes with which an opcode of two bytes begins. -/
  leadIns : List UInt8
  /-- Bytes of the longest instruction. -/
  maxLength : Nat
  /-- Addressing modes; of two with one key the later counts. -/
  modes : List Mode
  /-- Opcode lists, applied in order; later entries replace earlier ones. -/
  layers : List (List OpcodeEntry)
deriving DecidableEq, Repr

namespace Processor

/-! ## 1. What follows from a description -/

def table (processor : Processor) : InstructionTable := .build processor.layers

def modeMap (processor : Processor) : ModeMap := .ofModes processor.modes

/-- The processor as decoding needs to know it. -/
def instructionSet (processor : Processor) : InstructionSet where
  table := processor.table
  modes := processor.modeMap
  leadIns := processor.leadIns
  maxLength := processor.maxLength

/-! ## 2. Descriptions that make sense -/

/-- The longest instruction that a description may declare. -/
def lengthLimit : Nat := 7

/-- An entry fits a processor if its length is possible and its mode is there. -/
def Fits (processor : Processor) (entry : OpcodeEntry) : Prop :=
  1 ≤ entry.length ∧ entry.length ≤ processor.maxLength ∧
    ∃ mode ∈ processor.modes, mode.key = entry.mode

/-- The longest instruction has a possible length, and every entry of every layer fits, whether a
    later one replaces it or not. -/
def WellFormed (processor : Processor) : Prop :=
  1 ≤ processor.maxLength ∧ processor.maxLength ≤ lengthLimit ∧
    ∀ layer ∈ processor.layers, ∀ entry ∈ layer, processor.Fits entry

instance (processor : Processor) (entry : OpcodeEntry) : Decidable (processor.Fits entry) :=
  inferInstanceAs (Decidable (_ ∧ _ ∧ _))

instance (processor : Processor) : Decidable processor.WellFormed :=
  inferInstanceAs (Decidable (_ ∧ _ ∧ _))

end Processor

end Disassembly
