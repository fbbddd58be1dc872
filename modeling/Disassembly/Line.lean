import Disassembly.Address
import Disassembly.Source

/-!
# Units of a listing

A listing is made of units: an instruction, or a piece of data. Each comes with the address at
which it was met and with every byte it took from the input.
-/

namespace Disassembly

/-- What a unit says. -/
inductive Body where
  /-- A decoded instruction; no operand is the empty one. -/
  | instruction (mnemonic operand : String)
  /-- A data directive such as `.byte`. -/
  | directive (name value : String)
deriving DecidableEq, Repr

/-- A unit. -/
structure Line where
  /-- The cursor before the unit's bytes were read. -/
  address : Address
  /-- Every byte the unit took. -/
  bytes : List UInt8
  body : Body
deriving DecidableEq, Repr

/-- What stops a run short. Running out of data is not among it: a listing ends there. -/
inductive Fault where
  /-- An instruction whose addressing mode the processor does not know. -/
  | unknownMode (mode : String) (opcode : Nat)
  /-- A read or write call failed, in the words of the device. -/
  | io (detail : String)
deriving DecidableEq, Repr

/-- What reading one unit answers. -/
inductive Reading where
  | line (line : Line)
  /-- There was nothing left, and nothing was begun. -/
  | endOfData
  /-- The data ended inside the unit. A string shows what there was of it. -/
  | truncated (part : Option Line)
  | failed (fault : Fault)
deriving DecidableEq, Repr

end Disassembly
