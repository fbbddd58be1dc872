import Disassembly.Text.Hex

/-!
# Bytes as characters

The printable characters are those of ASCII from the space to the tilde. A string of data shows
them as they are and every other byte by an escape.
-/

namespace Disassembly.Text

def isPrintable (b : UInt8) : Bool := 0x20 ≤ b && b ≤ 0x7E

/-- The character of a byte. -/
def character (b : UInt8) : Char := Char.ofNat b.toNat

/-- A byte inside a string of data. A backslash is printable and stands for itself. -/
def escape (b : UInt8) : String :=
  if isPrintable b then String.ofList [character b] else "\\x" ++ Hex.lowerByte b

/-- Bytes as a string of data, in single quotes. -/
def quote (bytes : List UInt8) : String := "'" ++ String.join (bytes.map escape) ++ "'"

end Disassembly.Text
