import Disassembly.Layout
import Disassembly.Trace

/-!
# The listing of a run

How a trace is written down, line by line: the origin and an empty line, then the units, each with
the label of its address before it, then what the end of the run calls for. Labels stand at the
cursor wherever the run looked for a unit, so there is one for the last cursor too, whether a unit
came of it or not; an interrupted run did not look.
-/

namespace Disassembly.Disassembler

/-- The layout of the disassembler's listings. -/
def layout (d : Disassembler) : Layout where
  listing := d.listing
  maxLength := d.instructions.maxLength

/-- The line of the label at an address, if there is one. -/
def labelLines (d : Disassembler) (address : Address) : List String :=
  (d.labels.nameAt? address).toList.map Layout.label

/-- The lines in front of all units. -/
def headerLines (d : Disassembler) : List String := [d.layout.origin d.start, ""]

/-- The lines of a unit. -/
def unitLines (d : Disassembler) (unit : Line) : List String :=
  d.labelLines unit.address ++ [d.layout.line unit]

/-- The lines behind all units, where the run ended at a cursor. -/
def endingLines (d : Disassembler) (cursor : Address) : Ending → List String
  | .complete => d.labelLines cursor ++ ["", d.layout.trailer cursor]
  | .truncated part => d.labelLines cursor ++ part.toList.map d.layout.line
  | .failed _ => d.labelLines cursor
  | .interrupted => []

/-- The lines of a run. -/
def listingLines (d : Disassembler) (trace : Trace) : List String :=
  d.headerLines ++ trace.units.flatMap d.unitLines ++ d.endingLines trace.cursor trace.ending

end Disassembly.Disassembler
