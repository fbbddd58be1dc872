import Disassembly.Address
import Disassembly.Text.Blank
import Disassembly.Text.Hex
import Disassembly.Text.Numeral

/-!
# Addresses as text

Two places spell addresses. A field of a definition file is hexadecimal whether it says so or not
(`ofField`), and an address past `$FFFF` is refused. An argument of the command line is decimal
unless it says otherwise, and keeps its low sixteen bits (`ofArgument`).
-/

namespace Disassembly

/-- Why a field is no address. -/
inductive AddressError where
  /-- The field, trimmed but with its base mark, and what is wrong with its digits. -/
  | notHex (field : String) (cause : Text.NumeralError)
  | outOfRange (value : Nat)
deriving DecidableEq, Repr

namespace AddressError

def message : AddressError → String
  | notHex field cause => "'" ++ field ++ "' is not a hex address: " ++ cause.message
  | outOfRange value => "address $" ++ Hex.number 1 value ++ " is outside $0000-$FFFF"

end AddressError

namespace Address

/-- A hexadecimal numeral without its base mark, if it has one. -/
def dropHexMark : List Char → List Char
  | '0' :: 'x' :: digits => digits
  | '0' :: 'X' :: digits => digits
  | '$' :: digits => digits
  | digits => digits

/-- The address in a field of a definition file: hexadecimal with an optional `0x`, `0X` or `$`.
    Digits are read into 32 bits, so a numeral is refused either there, as too large, or here, as
    outside the address space. -/
def ofField (field : List Char) : Except AddressError Address :=
  let field := Text.trim field
  match Text.readNumeral 16 UInt32.size (dropHexMark field) with
  | .error cause => .error (.notHex (String.ofList field) cause)
  | .ok value => if value < 65536 then .ok (UInt16.ofNat value) else .error (.outOfRange value)

/-- The address in a command line argument: decimal, or hexadecimal after `0x` or `0X`, of at most
    64 bits. Blanks and the mark `$` are not part of this spelling. -/
def ofArgument (argument : List Char) : Except Text.NumeralError Address :=
  let value := match argument with
    | '0' :: 'x' :: digits => Text.readNumeral 16 UInt64.size digits
    | '0' :: 'X' :: digits => Text.readNumeral 16 UInt64.size digits
    | digits => Text.readNumeral 10 UInt64.size digits
  value.map UInt16.ofNat

end Address

end Disassembly
