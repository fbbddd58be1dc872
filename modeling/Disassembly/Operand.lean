import Disassembly.Address
import Disassembly.Label
import Disassembly.Text.Hex

/-!
# Operands

What stands behind a mnemonic. An addressing mode has one of a closed list of formats, and the
format says everything there is to say about its text:

* which operand bytes it shows, and how many of them it needs (`operandBytes`);
* where it shows an address that a label may stand for (`isLabelAware`);
* the text itself (`render`), in which an operand byte that is not there is shown as `??` and
  never guessed.

Numbers are `$` and upper-case hexadecimal digits. The fixed text around a number is part of the
format, which is how `#$42`, `($1234),y` and `(ix+$05)` come about.
-/

namespace Disassembly

/-! ## 1. Formats -/

/-- Which byte of a word comes first. -/
inductive ByteOrder where
  | little
  | big
deriving DecidableEq, Repr

namespace ByteOrder

/-- The word of two bytes in the order in which they are read. -/
def word (order : ByteOrder) (first second : UInt8) : UInt16 :=
  match order with
  | little => second.toUInt16 * 256 + first.toUInt16
  | big => first.toUInt16 * 256 + second.toUInt16

end ByteOrder

/-- The fixed text around a shown value. -/
structure Affix where
  before : String := ""
  after : String := ""
deriving DecidableEq, Repr

namespace Affix

def wrap (affix : Affix) (value : String) : String := affix.before ++ value ++ affix.after

end Affix

/-- A part of an operand that is put together from several. -/
inductive Piece where
  | text (shown : String)
  /-- The operand byte with this index. -/
  | byte (index : Nat)
  /-- The word of the operand bytes with this index and the next. -/
  | word (index : Nat) (order : ByteOrder)
  /-- The address a branch leads to. -/
  | target
deriving DecidableEq, Repr

/-- How the operand of an instruction is shown. -/
inductive OperandFormat where
  /-- No operand. -/
  | implied
  /-- A text in which no operand byte shows, such as `a` or `hl,de`. -/
  | fixed (shown : String)
  /-- The first operand byte, such as `#$10` or `$80,x`. -/
  | byte (affix : Affix)
  /-- The first two operand bytes as a word. With `label` it is an address, which a label may
      stand for; without, it is a number that happens to be wide. -/
  | word (order : ByteOrder) (affix : Affix) (label : Bool)
  /-- The target of a branch with an 8-bit displacement. -/
  | relative8 (affix : Affix)
  /-- The target of a branch with a 16-bit displacement. -/
  | relative16 (order : ByteOrder) (affix : Affix)
  /-- Two registers, named by the high and the low half of the first operand byte. -/
  | registerPair (names : Vector String 16)
  /-- Anything else. -/
  | pieces (parts : List Piece)
deriving DecidableEq, Repr

/-- What an operand is shown from. -/
structure OperandContext where
  /-- The operand bytes, in the order in which they are read. -/
  bytes : List UInt8
  /-- The address a branch leads to, where the instruction is one. -/
  target : Option Address := none
  labels : LabelTable := .empty

/-! ## 2. Values -/

/-- The word of the bytes at an index and the next, if both are there. -/
def wordAt? (bytes : List UInt8) (index : Nat) (order : ByteOrder) : Option UInt16 :=
  match bytes[index]?, bytes[index + 1]? with
  | some first, some second => some (order.word first second)
  | _, _ => none

/-- The word of the last two bytes. -/
def lastWord? (bytes : List UInt8) (order : ByteOrder) : Option UInt16 :=
  if 2 ≤ bytes.length then wordAt? bytes (bytes.length - 2) order else none

namespace OperandContext

/-- The target of a branch; where none is known, the bare displacement. -/
def target8? (context : OperandContext) : Option UInt16 :=
  context.target <|> context.bytes.getLast?.map UInt8.toUInt16

/-- The same for a displacement of two bytes. -/
def target16? (context : OperandContext) (order : ByteOrder) : Option UInt16 :=
  context.target <|> lastWord? context.bytes order

end OperandContext

/-! ## 3. Their text -/

/-- A byte as it stands in an operand. -/
def showByte : Option UInt8 → String
  | some b => "$" ++ Hex.byte b
  | none => "$??"

/-- A word as it stands in an operand. -/
def showWord : Option UInt16 → String
  | some w => "$" ++ Hex.word w
  | none => "$????"

/-- An address as it stands in an operand: by the name of its first label, if it has one. -/
def showAddress (labels : LabelTable) (address : Option Address) : String :=
  match address.bind labels.nameAt? with
  | some name => name
  | none => showWord address

namespace Piece

def render (context : OperandContext) : Piece → String
  | text shown => shown
  | byte index => showByte context.bytes[index]?
  | word index order => showWord (wordAt? context.bytes index order)
  | target => showAddress context.labels context.target8?

/-- How many operand bytes must be there for the piece to show them all. -/
def operandBytes : Piece → Nat
  | text _ | target => 0
  | byte index => index + 1
  | word index _ => index + 2

end Piece

namespace OperandFormat

/-- The text of an operand. -/
def render (context : OperandContext) : OperandFormat → String
  | implied => ""
  | fixed shown => shown
  | byte affix => affix.wrap (showByte context.bytes.head?)
  | word order affix label =>
    let value := wordAt? context.bytes 0 order
    affix.wrap (if label then showAddress context.labels value else showWord value)
  | relative8 affix => affix.wrap (showAddress context.labels context.target8?)
  | relative16 order affix => affix.wrap (showAddress context.labels (context.target16? order))
  | registerPair names =>
    match context.bytes.head? with
    | some b =>
      names.get ⟨b.toNat / 16, by have := b.toNat_lt; omega⟩ ++ "," ++
        names.get ⟨b.toNat % 16, by omega⟩
    | none => "??,??"
  | pieces parts => String.join (parts.map (Piece.render context))

/-- How many operand bytes the text asks for. The displacement behind a `target` piece is not
    among them: where the target is known the byte itself is not looked at. -/
def operandBytes : OperandFormat → Nat
  | implied | fixed _ => 0
  | byte _ | relative8 _ | registerPair _ => 1
  | word .. | relative16 .. => 2
  | pieces parts => (parts.map Piece.operandBytes).foldl max 0

/-- Whether a label may stand for a value in the text. -/
def isLabelAware : OperandFormat → Bool
  | word _ _ label => label
  | relative8 _ | relative16 .. => true
  | pieces parts => parts.contains .target
  | _ => false

/-- Whether the text shows the target of a branch. -/
def isRelative : OperandFormat → Bool
  | relative8 _ | relative16 .. => true
  | pieces parts => parts.contains .target
  | _ => false

/-- How many bytes an instruction spends on the operand: those it shows, and the displacement
    behind a `target` piece, which shows only as an address. -/
def size (format : OperandFormat) : Nat :=
  match format with
  | pieces _ => format.operandBytes + (if format.isRelative then 1 else 0)
  | _ => format.operandBytes

end OperandFormat

/-! ## 4. Modes -/

/-- An addressing mode: the key by which opcodes refer to it, and its format. -/
structure Mode where
  key : String
  format : OperandFormat
deriving DecidableEq, Repr

/-- The modes of a processor by their keys. -/
abbrev ModeMap := Std.TreeMap String OperandFormat

namespace ModeMap

/-- The map of a list of modes; of two modes with one key the later counts. -/
def ofModes (modes : List Mode) : ModeMap :=
  modes.foldl (fun map mode => map.insert mode.key mode.format) ∅

end ModeMap

end Disassembly
