import Disassembly.Address.Field
import Disassembly.Text.Split

/-!
# Definition files

Labels and data regions are declared in text files of one shape: one definition a line, its parts
separated by commas, blank lines allowed anywhere. This file reads that shape for any kind of
definition. Lines are counted from one, blank lines included, and the first line with a defect
decides the answer: a file is taken whole or not at all.
-/

namespace Disassembly

/-- What can be wrong with the line of a definition. -/
inductive Defect where
  | missingAddress
  | emptyName
  | missingEnd
  | badAddress (cause : AddressError)
deriving DecidableEq, Repr

namespace Defect

def message : Defect → String
  | missingAddress => "missing address field"
  | emptyName => "empty label name"
  | missingEnd => "missing end address"
  | badAddress cause => cause.message

end Defect

/-- The first line of a file that has a defect. -/
structure Offence where
  line : Nat
  defect : Defect
deriving DecidableEq, Repr

namespace Definition

/-- A line that holds nothing but blanks defines nothing. -/
def isVoid (line : List Char) : Bool := (Text.trim line).isEmpty

/-- Reads the definitions of a list of lines, the first of which has the given number. -/
def readLines (define : List (List Char) → Except Defect α) :
    Nat → List (List Char) → Except Offence (List α)
  | _, [] => .ok []
  | number, line :: others =>
    if isVoid line then readLines define (number + 1) others
    else match define (Text.fields line) with
      | .error defect => .error { line := number, defect }
      | .ok definition =>
        (readLines define (number + 1) others).map (definition :: ·)

/-- Reads the text of a definition file. `define` makes a definition of the fields of a line. -/
def readText (define : List (List Char) → Except Defect α) (text : String) :
    Except Offence (List α) :=
  readLines define 1 (Text.lines text.toList)

/-- The address in a field, its fault counted as a defect of the line. -/
def addressOf (field : List Char) : Except Defect Address :=
  (Address.ofField field).mapError .badAddress

end Definition

end Disassembly
