import Disassembly.Definition
import Disassembly.Line
import Disassembly.Operand
import Disassembly.Text.Printable

/-!
# Data regions

A range of addresses that is shown as data, whatever instructions its bytes might make. The kind
of a region says how its bytes fall into units and how a unit is shown:

| code  | unit                | directive |
|-------|---------------------|-----------|
| `a`   | a character         | `.ascii`  |
| `W`   | a word, high first  | `.dw`     |
| `w`   | a word, low first   | `.word`   |
| `s`   | the rest of region  | `.string` |
| other | a byte              | `.byte`   |

Regions may overlap, and then the first one declared counts (`RegionTable.at?`). A region governs
a unit only where the cursor meets it at the start of one.
-/

namespace Disassembly

/-! ## 1. Regions -/

/-- How the bytes of a region are shown. -/
inductive DataKind where
  | ascii
  | byte
  | wordBigEndian
  | wordLittleEndian
  | string
deriving DecidableEq, Repr

/-- The addresses from `first` to `last`, both included, and their kind. -/
structure Region where
  first : Address
  last : Address
  kind : DataKind
deriving DecidableEq, Repr

namespace DataKind

/-- The kind of a code; whatever is no code of another kind, or is missing, is that of bytes. -/
def ofCode : Option Char → DataKind
  | some 'a' => ascii
  | some 'W' => wordBigEndian
  | some 'w' => wordLittleEndian
  | some 's' => string
  | _ => byte

/-- The directive under which a unit of the kind is shown. -/
def directive : DataKind → String
  | ascii => ".ascii"
  | byte => ".byte"
  | wordBigEndian => ".dw"
  | wordLittleEndian => ".word"
  | string => ".string"

/-- A byte as a character, or as a number where it has none. -/
def showCharacter : Option UInt8 → String
  | some b => if Text.isPrintable b then String.ofList [Text.character b] else showByte b
  | none => showByte none

/-- The value behind the directive. -/
def value (bytes : List UInt8) : DataKind → String
  | ascii => showCharacter bytes.head?
  | byte => showByte bytes.head?
  | wordBigEndian => showWord (wordAt? bytes 0 .big)
  | wordLittleEndian => showWord (wordAt? bytes 0 .little)
  | string => Text.quote bytes

/-- The unit of the kind that some bytes make. -/
def line (kind : DataKind) (address : Address) (bytes : List UInt8) : Line where
  address
  bytes
  body := .directive kind.directive (kind.value bytes)

end DataKind

/-! ## 2. Reading a unit -/

namespace Region

def contains (region : Region) (address : Address) : Bool :=
  region.first ≤ address && address ≤ region.last

/-- How many bytes the unit at an address of the region takes. A word may reach past the end of
    its region by one byte; a string never does. -/
def unitLength (region : Region) (address : Address) : Nat :=
  match region.kind with
  | .ascii | .byte => 1
  | .wordBigEndian | .wordLittleEndian => 2
  | .string => region.last.toNat - address.toNat + 1

theorem unitLength_pos (region : Region) (address : Address) : 0 < region.unitLength address := by
  unfold unitLength
  split <;> omega

/-- What is shown of a unit that the end of the data cut short: of a string what there was, if
    there was anything, of the others nothing. -/
def cutLine (region : Region) (address : Address) (bytes : List UInt8) : Option Line :=
  if region.kind = .string ∧ bytes ≠ [] then some (DataKind.string.line address bytes) else none

/-- Reads the unit at an address of the region. -/
def readUnit (region : Region) (address : Address) (source : Source) : Reading × Source :=
  let taken := source.take (region.unitLength address)
  match taken.supply with
  | .full => (.line (region.kind.line address taken.bytes), taken.rest)
  | .short => (.truncated (region.cutLine address taken.bytes), taken.rest)
  | .fault detail => (.failed (.io detail), taken.rest)

/-- A unit that was read has used the source up by some. -/
theorem readUnit_line_lt {region : Region} {address : Address} {source rest : Source} {line : Line}
    (h : region.readUnit address source = (.line line, rest)) :
    rest.pending.length < source.pending.length := by
  simp only [readUnit] at h
  split at h <;> rename_i hsupply
  · simp only [Prod.mk.injEq] at h
    rw [← h.2]
    exact Source.take_full_lt (region.unitLength_pos address) hsupply
  · simp at h
  · simp at h

end Region

/-! ## 3. Tables and their files -/

/-- Regions in declaration order. -/
abbrev RegionTable := List Region

namespace RegionTable

/-- The region that governs an address: the first one declared that contains it. -/
def at? (table : RegionTable) (address : Address) : Option Region :=
  table.find? (·.contains address)

/-- The region a line defines: its two ends, then the code of its kind. That the last address is
    there is asked first, then what the two say. The ends may stand in either order; a region
    whose ends are reversed contains nothing. -/
def define : List (List Char) → Except Defect Region
  | first :: last :: others => do
    let first ← Definition.addressOf first
    let last ← Definition.addressOf last
    let code := others.head?.bind fun field => (Text.trim field).head?
    return { first, last, kind := .ofCode code }
  | _ => .error .missingEnd

/-- The regions that a block file declares. -/
def parse (text : String) : Except Offence RegionTable := Definition.readText define text

end RegionTable

end Disassembly
