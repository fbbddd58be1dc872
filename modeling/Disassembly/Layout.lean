import Disassembly.Line
import Disassembly.Text.Columns
import Disassembly.Text.Hex

/-!
# Layout of a listing

A full listing has a margin of three columns before what a line says, the address, the bytes, and
a gap:

    1000              .org     $1000

    1000  A9 42       lda      #$42
    1002  8D 00 80    sta      $8000

    1005              end

Without the margin a line is indented by three spaces, which cross assemblers take as it is.
-/

namespace Disassembly

/-- Whether the margin is shown, and how many bytes the longest instruction has. -/
structure Layout where
  listing : Bool := true
  maxLength : Nat := 3
deriving DecidableEq, Repr

namespace Layout

/-- How many bytes the margin has room for: as many as the longest instruction has. -/
def shownBytes (layout : Layout) : Nat := max layout.maxLength 1

/-- What stands to the left of a line. A unit with more bytes than there is room for, which only a
    string can be, shows the first of them. -/
def margin (layout : Layout) (address : Address) (bytes : List UInt8) : String :=
  if layout.listing then
    let shown := " ".intercalate ((bytes.take layout.shownBytes).map Hex.byte)
    Hex.word address ++ "  " ++ Text.padRight (layout.shownBytes * 3 - 1) shown ++ "    "
  else "   "

/-- What a unit says, in columns. -/
def body : Body → String
  | .instruction mnemonic operand =>
    if operand.isEmpty then mnemonic else Text.padRight 5 mnemonic ++ "    " ++ operand
  | .directive name value => Text.padRight 8 name ++ " " ++ value

/-- The line that opens a listing. -/
def origin (layout : Layout) (address : Address) : String :=
  layout.margin address [] ++ body (.directive ".org" ("$" ++ Hex.word address))

/-- The line that closes a listing whose data ended between two units. -/
def trailer (layout : Layout) (address : Address) : String := layout.margin address [] ++ "end"

/-- The line of a label. It stands at the very left in both layouts. -/
def label (name : String) : String := name ++ ":"

/-- The line of a unit. -/
def line (layout : Layout) (line : Line) : String :=
  layout.margin line.address line.bytes ++ body line.body

end Layout

end Disassembly
