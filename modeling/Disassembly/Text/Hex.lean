/-!
# Hexadecimal text

Bytes are written with two digits and words with four, always; a number that has no fixed width is
written with as many digits as it needs, zeros in front up to a least width. Digits are upper case
everywhere but in the escapes of string data (`lowerByte`).
-/

namespace Disassembly.Hex

/-! ## 1. Digits -/

/-- The upper-case digit of a value below sixteen. -/
def digit (value : Nat) : Char :=
  if value < 10 then Char.ofNat (48 + value) else Char.ofNat (55 + value)

/-- The lower-case digit of a value below sixteen. -/
def lowerDigit (value : Nat) : Char :=
  if value < 10 then Char.ofNat (48 + value) else Char.ofNat (87 + value)

/-! ## 2. Fixed widths -/

/-- A byte as two digits. -/
def byte (b : UInt8) : String :=
  String.ofList [digit (b.toNat / 16), digit (b.toNat % 16)]

/-- A byte as two lower-case digits. -/
def lowerByte (b : UInt8) : String :=
  String.ofList [lowerDigit (b.toNat / 16), lowerDigit (b.toNat % 16)]

/-- A word as four digits. -/
def word (w : UInt16) : String :=
  String.ofList [digit (w.toNat / 4096), digit (w.toNat / 256 % 16),
    digit (w.toNat / 16 % 16), digit (w.toNat % 16)]

/-! ## 3. Numbers of any size -/

/-- The digits of a number, no zero in front; zero itself is one digit. -/
def digits (n : Nat) : List Char := (Nat.toDigits 16 n).map Char.toUpper

/-- A number with at least `width` digits. -/
def number (width n : Nat) : String :=
  String.ofList (List.replicate (width - (digits n).length) '0' ++ digits n)

end Disassembly.Hex
