import Disassembly.Processor.Cmos65C02
import Disassembly.Processor.Motorola6809
import Disassembly.Processor.ZilogZ80

/-!
# The registered processors

The processors that are known by name, in the order in which they are listed. A name is matched
whole, the letters of ASCII in either case. The description of each of them makes sense
(`wellFormed_of_mem`).
-/

namespace Disassembly.Registry

def processors : List Processor :=
  [Nmos6502.processor, Cmos65C02.processor, Motorola6809.processor, ZilogZ80.processor]

/-- The names of all of them. -/
def names : List String := processors.map (·.id)

/-- The processor of a name. -/
def find? (name : String) : Option Processor :=
  processors.find? fun processor => processor.id.toLower = name.toLower

theorem wellFormed_of_mem {processor : Processor} (h : processor ∈ processors) :
    processor.WellFormed := by
  simp only [processors, List.mem_cons, List.not_mem_nil, or_false] at h
  rcases h with rfl | rfl | rfl | rfl
  · exact Nmos6502.processor_wellFormed
  · exact Cmos65C02.processor_wellFormed
  · exact Motorola6809.processor_wellFormed
  · exact ZilogZ80.processor_wellFormed

end Disassembly.Registry
