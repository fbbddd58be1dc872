import Disassembly.Error
import Disassembly.Run

/-!
# Setting up a disassembler

By name, with the texts of definition files, or all at once over some bytes (`disassemble`).
-/

namespace Disassembly

namespace Disassembler

/-- The disassembler of a registered processor. -/
def forName (name : String) (options : Options := {}) : Except Error Disassembler :=
  match Registry.find? name with
  | some processor => .ok (.ofProcessor processor options)
  | none => .error (.unknownProcessor name)

/-- The disassembler with the labels of a label file in place of those it had. -/
def withLabels (d : Disassembler) (text : String) : Except Error Disassembler :=
  match LabelTable.parse text with
  | .ok labels => .ok { d with labels }
  | .error offence => .error (.badLabels offence)

/-- The disassembler with the regions of a block file in place of those it had. -/
def withRegions (d : Disassembler) (text : String) : Except Error Disassembler :=
  match RegionTable.parse text with
  | .ok regions => .ok { d with regions }
  | .error offence => .error (.badRegions offence)

end Disassembler

/-- The listing of some bytes. -/
def disassemble (name : String) (bytes : List UInt8) (options : Options := {}) :
    Except Error String := do
  let d ← Disassembler.forName name options
  let report := d.run (.ofBytes bytes)
  match report.result with
  | .ok _ => return report.text
  | .error fault => throw (.fault fault)

end Disassembly
