import Disassembly.Processor.Registry
import Disassembly.Text.Hex

/-!
# Errors

Everything that keeps a listing from being made, and the words for it.
-/

namespace Disassembly

namespace Fault

def message : Fault → String
  | unknownMode mode opcode =>
    "mode '" ++ mode ++ "' of opcode $" ++ Hex.number 2 opcode ++
      " not found in address mode table"
  | io detail => "I/O error: " ++ detail

end Fault

namespace Offence

/-- The words for a definition that is wrong, which is one of a given kind. -/
def message (offence : Offence) (kind : String) : String :=
  "invalid " ++ kind ++ " definition on line " ++ toString offence.line ++ ": " ++
    offence.defect.message

end Offence

/-- What keeps a listing from being made. -/
inductive Error where
  | unknownProcessor (name : String)
  | badLabels (offence : Offence)
  | badRegions (offence : Offence)
  | fault (cause : Fault)
deriving DecidableEq, Repr

namespace Error

def message : Error → String
  | unknownProcessor name =>
    "CPU '" ++ name ++ "' is not supported. The following CPUs are supported: " ++
      " ".intercalate Registry.names
  | badLabels offence => offence.message "label"
  | badRegions offence => offence.message "block"
  | fault cause => cause.message

end Error

end Disassembly
