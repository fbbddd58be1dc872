import Disassembly.Proofs.Encoding
import Disassembly.Proofs.FirstLabels
import Disassembly.Proofs.FullSinks
import Disassembly.Proofs.Instructions
import Disassembly.Proofs.RegionBounds

/-!
# Every operation of a run is defined

A run subtracts, looks up positions and cuts lists, and it is written with operations that answer
something anyway: a difference stops at zero, a cut at the end of the list. This file writes the run
a second time with operations that have a value only where they are defined (`minus?`, `from?`,
`upTo?`, `successor?`, and `xs[i]?` wherever an element is taken), step by step as the run does
them, so that one undefined operation leaves the whole run without a value.

No operation is undefined (`run_is_defined`). Each guard stands in another function than the
operation it is for, and here is where they meet:

* a region reads only at addresses it contains, so the rest of a string is counted down from an
  address not behind its end (`Region.readUnit?_eq`);
* a request that was met in full has brought as many bytes as were asked for, so the bytes of a
  complete unit are there (`Source.length_of_full`, `DataKind.value?_eq`);
* the positions in a label table are those of its labels (`LabelTable.nameWithin?_eq`);
* the length of an instruction is raised to that of its opcode bytes, so there is something to cut
  off them (`Decoder.decodeFrom?_eq`).

Nothing is asked of the instruction set but that the positions in its pieces are numbers of a
machine word. Lengths of zero, modes that do not fit and regions whose ends are reversed are all
allowed.
-/

namespace Disassembly

/-! ## 1. Operations that may be undefined -/

/-- A difference, where it is not below zero. -/
def minus? (m n : Nat) : Option Nat := if n ≤ m then some (m - n) else none

theorem minus?_of_le {m n : Nat} (h : n ≤ m) : minus? m n = some (m - n) := if_pos h

/-- The next position, where a machine word holds it. -/
def successor? (index : Nat) : Option Nat :=
  if index + 1 < UInt64.size then some (index + 1) else none

/-- A list from a position on, where it reaches up to there. -/
def from? (xs : List α) (start : Nat) : Option (List α) :=
  if start ≤ xs.length then some (xs.drop start) else none

/-- A list up to a position, where it reaches up to there. -/
def upTo? (xs : List α) (stop : Nat) : Option (List α) :=
  if stop ≤ xs.length then some (xs.take stop) else none

theorem from?_append (xs ys : List α) : from? (xs ++ ys) xs.length = some ys := by
  unfold from?
  rw [if_pos (by rw [List.length_append]; exact Nat.le_add_right _ _), List.drop_left]

theorem upTo?_of_le {xs : List α} {stop : Nat} (h : stop ≤ xs.length) :
    upTo? xs stop = some (xs.take stop) := if_pos h

theorem getElem?_of_lt {xs : List α} {index : Nat} (h : index < xs.length) :
    ∃ x, xs[index]? = some x := ⟨_, List.getElem?_eq_getElem h⟩

/-- What is defined for every element is defined for the list. -/
theorem mapM_of_forall {f : α → Option β} {g : α → β} {xs : List α}
    (h : ∀ x ∈ xs, f x = some (g x)) : xs.mapM f = some (xs.map g) := by
  induction xs with
  | nil => rfl
  | cons x xs ih =>
    have hrest : ∀ y ∈ xs, f y = some (g y) := fun y hy => h y (List.mem_cons_of_mem _ hy)
    rw [List.mapM_cons, h x List.mem_cons_self, ih hrest]
    rfl

/-! ## 2. Data -/

/-- A request that was met in full got as many bytes as it asked for. -/
theorem Source.length_of_full {source : Source} {count : Nat}
    (h : (source.take count).supply = .full) : (source.take count).bytes.length = count := by
  by_cases hle : count ≤ source.ahead.length
  · obtain ⟨rest, htake, -⟩ := take_of_le hle
    rw [htake]
    exact List.length_take_of_le hle
  · have hlt := Nat.lt_of_not_le hle
    cases hfault : source.faultAhead with
    | none =>
      rw [take_of_end hlt hfault] at h
      cases h
    | some detail =>
      obtain ⟨rest, htake⟩ := take_of_fault hlt hfault
      rw [htake] at h
      cases h

/-- The value behind a directive, of bytes that must be there. -/
def DataKind.value? (bytes : List UInt8) : DataKind → Option String
  | ascii => do return showCharacter (some (← bytes[0]?))
  | byte => do return showByte (some (← bytes[0]?))
  | wordBigEndian => do return showWord (some (ByteOrder.big.word (← bytes[0]?) (← bytes[1]?)))
  | wordLittleEndian => do
    return showWord (some (ByteOrder.little.word (← bytes[0]?) (← bytes[1]?)))
  | string => some (Text.quote bytes)

namespace Region

variable {region : Region} {address : Address}

/-- How many bytes a unit takes. A string goes on to the last address, which must not be before the
    first one of the unit. -/
def unitLength? (region : Region) (address : Address) : Option Nat :=
  match region.kind with
  | .ascii | .byte => some 1
  | .wordBigEndian | .wordLittleEndian => some 2
  | .string => do return (← minus? region.last.toNat address.toNat) + 1

/-- A region of strings is not asked behind its end. -/
theorem unitLength?_eq (h : region.contains address = true) :
    region.unitLength? address = some (region.unitLength address) := by
  obtain ⟨-, hlast⟩ := contains_iff.mp h
  unfold unitLength? unitLength
  cases region.kind with
  | ascii => rfl
  | byte => rfl
  | wordBigEndian => rfl
  | wordLittleEndian => rfl
  | string => rw [minus?_of_le hlast]; rfl

-- What is asked for is no formality: behind its end a string has no length.
example : unitLength? ⟨0, 7, .string⟩ 8 = none := rfl

/-- Reads the unit at an address of the region. -/
def readUnit? (region : Region) (address : Address) (source : Source) :
    Option (Reading × Source) := do
  let taken := source.take (← region.unitLength? address)
  match taken.supply with
  | .full =>
    let value ← region.kind.value? taken.bytes
    let body := .directive region.kind.directive value
    return (.line { address, bytes := taken.bytes, body }, taken.rest)
  | .short => return (.truncated (region.cutLine address taken.bytes), taken.rest)
  | .fault detail => return (.failed (.io detail), taken.rest)

/-- The bytes of a complete unit are there. -/
theorem value?_eq {bytes : List UInt8} (h : bytes.length = region.unitLength address) :
    region.kind.value? bytes = some (region.kind.value bytes) := by
  unfold unitLength at h
  cases hkind : region.kind with
  | ascii | byte =>
    rw [hkind] at h
    obtain ⟨b, rfl⟩ := List.length_eq_one_iff.mp h
    rfl
  | wordBigEndian | wordLittleEndian =>
    rw [hkind] at h
    match bytes, h with
    | [first, second], _ => rfl
  | string => rfl

/-- **Reading a unit of a region is defined** at the addresses of the region. -/
theorem readUnit?_eq (h : region.contains address = true) (source : Source) :
    region.readUnit? address source = some (region.readUnit address source) := by
  unfold readUnit? readUnit
  rw [unitLength?_eq h]
  dsimp only [Option.bind_eq_bind, Option.bind_some]
  cases hsupply : (source.take (region.unitLength address)).supply with
  | full => rw [value?_eq (Source.length_of_full hsupply)]; rfl
  | short => rfl
  | fault detail => rfl

end Region

/-! ## 3. Operands -/

/-- The target of an 8-bit displacement, whose way back is counted down from 256. -/
def Address.relative8? (a : Address) (displacement : UInt8) (length : Nat) : Option Address :=
  if displacement < 0x80 then some (a.advance length + displacement.toUInt16)
  else do return a.advance length - UInt16.ofNat (← minus? 0x100 displacement.toNat)

theorem Address.relative8?_eq (a : Address) (displacement : UInt8) (length : Nat) :
    a.relative8? displacement length = some (a.relative8 displacement length) := by
  have hlt := displacement.toNat_lt
  have hback : UInt16.ofNat (0x100 - displacement.toNat) = 0x100 - displacement.toUInt16 := by
    apply UInt16.toNat_inj.mp
    rw [UInt16.toNat_ofNat', UInt16.toNat_sub]
    simp only [UInt8.toNat_toUInt16, UInt16.reduceToNat]
    omega
  unfold relative8? relative8
  by_cases hsign : displacement < 0x80
  · rw [if_pos hsign, if_pos hsign]
  · rw [if_neg hsign, if_neg hsign, minus?_of_le (Nat.le_of_lt hlt), ← hback]
    rfl

/-- The name of an address, by a position that must be one of the table's labels. -/
def LabelTable.nameWithin? (table : LabelTable) (address : Address) : Option (Option String) :=
  match table.firstAt[address]? with
  | none => some none
  | some position => do return some (← table.labels[position]?).name

/-- **The positions in a label table are those of labels**, where it is kept in step. -/
theorem LabelTable.nameWithin?_eq {table : LabelTable} (h : table.Indexed) (address : Address) :
    table.nameWithin? address = some (table.nameAt? address) := by
  unfold nameWithin? nameAt?
  cases hposition : table.firstAt[address]? with
  | none => rfl
  | some position =>
    rw [h address] at hposition
    obtain ⟨hlt, -⟩ := List.findIdx?_eq_some_iff_getElem.mp hposition
    have hthere : table.labels[position]? = some table.labels[position] :=
      Array.getElem?_eq_getElem hlt
    dsimp only [Option.bind_eq_bind, Option.bind_some]
    rw [hthere]
    rfl

/-- An address as it stands in an operand. -/
def showAddress? (labels : LabelTable) : Option Address → Option String
  | none => some (showWord none)
  | some address => do
    match ← labels.nameWithin? address with
    | some name => return name
    | none => return showWord (some address)

theorem showAddress?_eq {labels : LabelTable} (h : labels.Indexed) (address : Option Address) :
    showAddress? labels address = some (showAddress labels address) := by
  cases address with
  | none => rfl
  | some address =>
    unfold showAddress? showAddress
    dsimp only [Option.bind_some]
    rw [LabelTable.nameWithin?_eq h]
    dsimp only [Option.bind_eq_bind, Option.bind_some]
    cases labels.nameAt? address with
    | none => rfl
    | some name => rfl

/-- A piece of an operand. Its second position must be a machine word where it shows one. -/
def Piece.render? (context : OperandContext) : Piece → Option String
  | text shown => some shown
  | byte index => some (showByte context.bytes[index]?)
  | word index order => do
    let next ← successor? index
    match context.bytes[index]?, context.bytes[next]? with
    | some first, some second => return showWord (some (order.word first second))
    | _, _ => return showWord none
  | target => showAddress? context.labels context.target8?

/-- The positions in the pieces of a format are machine words. -/
def OperandFormat.Addressable (format : OperandFormat) : Prop :=
  ∀ parts, format = .pieces parts →
    ∀ index order, .word index order ∈ parts → index + 1 < UInt64.size

theorem Piece.render?_eq {context : OperandContext} (hlabels : context.labels.Indexed)
    {piece : Piece} (h : ∀ index order, piece = .word index order → index + 1 < UInt64.size) :
    piece.render? context = some (piece.render context) := by
  cases piece with
  | text shown => rfl
  | byte index => rfl
  | word index order =>
    have hnext : successor? index = some (index + 1) := if_pos (h index order rfl)
    unfold render? render wordAt?
    dsimp only
    rw [hnext]
    dsimp only [Option.bind_eq_bind, Option.bind_some]
    cases context.bytes[index]? with
    | none => rfl
    | some first =>
      cases context.bytes[index + 1]? with
      | none => rfl
      | some second => rfl
  | target => exact showAddress?_eq hlabels _

namespace OperandFormat

/-- The text of an operand. The halves of a byte are positions in the list of register names. -/
def render? (context : OperandContext) : OperandFormat → Option String
  | implied => some ""
  | fixed shown => some shown
  | byte affix => some (affix.wrap (showByte context.bytes.head?))
  | word order affix label =>
    let value := wordAt? context.bytes 0 order
    if label then (showAddress? context.labels value).map affix.wrap
    else some (affix.wrap (showWord value))
  | relative8 affix => (showAddress? context.labels context.target8?).map affix.wrap
  | relative16 order affix =>
    (showAddress? context.labels (context.target16? order)).map affix.wrap
  | registerPair names =>
    match context.bytes.head? with
    | some b => do
      return (← names[(b >>> 4).toNat]?) ++ "," ++ (← names[(b &&& 0x0F).toNat]?)
    | none => some "??,??"
  | pieces parts => (parts.mapM (Piece.render? context)).map String.join

/-- Half a byte is a position among sixteen. -/
theorem names_getElem? (names : Vector String 16) {half index : Nat} (h : half = index)
    (hlt : index < 16) : names[half]? = some (names.get ⟨index, hlt⟩) := by
  subst h
  exact Vector.getElem?_eq_getElem hlt

/-- **Showing an operand is defined**, whatever bytes there are. -/
theorem render?_eq {context : OperandContext} (hlabels : context.labels.Indexed)
    {format : OperandFormat} (h : format.Addressable) :
    format.render? context = some (format.render context) := by
  cases format with
  | implied => rfl
  | fixed shown => rfl
  | byte affix => rfl
  | word order affix label =>
    unfold render? render
    dsimp only
    cases label with
    | true => rw [if_pos rfl, if_pos rfl, showAddress?_eq hlabels]; rfl
    | false => rfl
  | relative8 affix => rw [render?, showAddress?_eq hlabels]; rfl
  | relative16 order affix => rw [render?, showAddress?_eq hlabels]; rfl
  | registerPair names =>
    unfold render? render
    cases context.bytes.head? with
    | none => rfl
    | some b =>
      have hhigh : (b >>> 4).toNat = b.toNat / 16 := by
        rw [UInt8.toNat_shiftRight, Nat.shiftRight_eq_div_pow]
        rfl
      have hlow : (b &&& 0x0F).toNat = b.toNat % 16 := by
        rw [UInt8.toNat_and]
        exact Nat.and_two_pow_sub_one_eq_mod b.toNat 4
      have hlt := b.toNat_lt
      dsimp only
      rw [names_getElem? names hhigh (by omega), names_getElem? names hlow (by omega)]
      rfl
  | pieces parts =>
    have hevery : ∀ piece ∈ parts, piece.render? context = some (piece.render context) := by
      intro piece hpiece
      refine Piece.render?_eq hlabels fun index order heq => ?_
      subst heq
      exact h parts rfl index order hpiece
    rw [render?, mapM_of_forall hevery]
    rfl

end OperandFormat

/-! ## 4. Instructions -/

namespace Decoder

variable {decoder : Decoder} {address : Address}

/-- Where a branch leads. The two bytes of a wide displacement must be there where there are two
    bytes at all. -/
def targetWithin? (format : OperandFormat) (address : Address) (operands : List UInt8)
    (length : Nat) : Option (Option Address) :=
  match format with
  | .relative16 order _ =>
    match minus? operands.length 2 with
    | none => some none
    | some start => do
      let displacement := order.word (← operands[start]?) (← operands[start + 1]?)
      return some (address.relative16 displacement length)
  | _ =>
    match operands.getLast? with
    | none => some none
    | some displacement => do return some (← address.relative8? displacement length)

theorem targetWithin?_eq (format : OperandFormat) (address : Address) (operands : List UInt8)
    (length : Nat) :
    targetWithin? format address operands length =
      some (target? format address operands length) := by
  have hnear : (match operands.getLast? with
      | none => some none
      | some displacement => do return some (← address.relative8? displacement length)) =
      some (operands.getLast?.map fun displacement => address.relative8 displacement length) := by
    cases operands.getLast? with
    | none => rfl
    | some displacement =>
      dsimp only
      rw [Address.relative8?_eq]
      rfl
  cases format with
  | relative16 order affix =>
    unfold targetWithin? target? lastWord? wordAt?
    dsimp only
    by_cases hle : 2 ≤ operands.length
    · obtain ⟨first, hfirst⟩ : ∃ b, operands[operands.length - 2]? = some b :=
        getElem?_of_lt (by omega)
      obtain ⟨second, hsecond⟩ : ∃ b, operands[operands.length - 2 + 1]? = some b :=
        getElem?_of_lt (by omega)
      rw [minus?_of_le hle, if_pos hle]
      dsimp only
      rw [hfirst, hsecond]
      rfl
    · rw [minus?, if_neg hle, if_neg hle]
      rfl
  | implied => exact hnear
  | fixed shown => exact hnear
  | byte affix => exact hnear
  | word order affix label => exact hnear
  | relative8 affix => exact hnear
  | registerPair names => exact hnear
  | pieces parts => exact hnear

/-- The positions in the pieces of every mode are machine words. -/
def Addressable (decoder : Decoder) : Prop :=
  ∀ descriptor format, decoder.format? descriptor = some format → format.Addressable

/-- The unit of an instruction of a given length. -/
def instruction? (decoder : Decoder) (address : Address) (bytes : List UInt8)
    (descriptor : Descriptor) (format : OperandFormat) (operands : List UInt8) (length : Nat) :
    Option Line := do
  let target ←
    (if descriptor.flags.pcRelative then targetWithin? format address operands length
      else some none)
  let operand ← format.render? { bytes := operands, target, labels := decoder.labels }
  return decoder.unit address bytes descriptor.mnemonic operand

theorem instruction?_eq (hlabels : decoder.labels.Indexed) {format : OperandFormat}
    (h : format.Addressable) (bytes operands : List UInt8) (descriptor : Descriptor) :
    decoder.instruction? address bytes descriptor format operands bytes.length =
      some (decoder.instruction address bytes descriptor format operands) := by
  have htarget :
      (if descriptor.flags.pcRelative then targetWithin? format address operands bytes.length
        else some none) =
      some (if descriptor.flags.pcRelative then target? format address operands bytes.length
        else none) := by
    rw [targetWithin?_eq]
    split
    · rfl
    · rfl
  unfold instruction? instruction
  rw [htarget]
  dsimp only [Option.bind_eq_bind, Option.bind_some]
  rw [OperandFormat.render?_eq hlabels h]
  rfl

/-- Ends an instruction whose opcode goes on behind its operand. The operand is cut off behind so
    many bytes in front, and its first byte, which must be there, is shown. -/
def completeExtended? (decoder : Decoder) (address : Address) (opcode : Nat) (bytes : List UInt8)
    (front : Nat) : Option Reading := do
  let operands ← from? bytes front
  match operands.getLast? with
  | none => return .line (decoder.invalid address bytes)
  | some last =>
    let key := opcode * 256 + last.toNat
    match decoder.visible? key with
    | none => return .line (decoder.invalid address bytes)
    | some descriptor =>
      match decoder.format? descriptor with
      | none => return .failed (.unknownMode descriptor.mode key)
      | some format =>
        let shown ← upTo? operands 1
        return .line (← decoder.instruction? address bytes descriptor format shown bytes.length)

theorem completeExtended?_eq (hlabels : decoder.labels.Indexed) (h : decoder.Addressable)
    (opcode operands : List UInt8) :
    decoder.completeExtended? address (Opcode.ofBytes opcode) (opcode ++ operands) opcode.length =
      some (decoder.completeExtended address opcode operands) := by
  unfold completeExtended? completeExtended
  rw [from?_append]
  dsimp only [Option.bind_eq_bind, Option.bind_some]
  cases hlast : operands.getLast? with
  | none => rfl
  | some last =>
    have hpos : 1 ≤ operands.length :=
      List.length_pos_of_mem (List.mem_of_getLast? hlast)
    dsimp only
    rw [Opcode.ofBytes_concat]
    cases decoder.visible? (Opcode.ofBytes opcode * 256 + last.toNat) with
    | none => rfl
    | some descriptor =>
      dsimp only
      cases hformat : decoder.format? descriptor with
      | none => rfl
      | some format =>
        dsimp only
        rw [upTo?_of_le hpos]
        dsimp only [Option.bind_some]
        rw [instruction?_eq hlabels (h descriptor format hformat)]
        rfl

/-- Decodes on from the opcode bytes. The length of the instruction is at least theirs, and what is
    missing of it is taken. -/
def decodeFrom? (decoder : Decoder) (address : Address) (opcode : List UInt8) (source : Source) :
    Option (Reading × Source) :=
  let key := Opcode.ofBytes opcode
  match decoder.visible? key with
  | none => some (.line (decoder.invalid address opcode), source)
  | some descriptor =>
    match decoder.format? descriptor with
    | none => some (.failed (.unknownMode descriptor.mode key), source)
    | some format => do
      let length := max descriptor.length opcode.length
      let taken := source.take (← minus? length opcode.length)
      let bytes := opcode ++ taken.bytes
      match taken.supply with
      | .full =>
        if descriptor.flags.extended then
          return (← decoder.completeExtended? address key bytes opcode.length, taken.rest)
        else
          let operands ← from? bytes opcode.length
          return (.line (← decoder.instruction? address bytes descriptor format operands length),
            taken.rest)
      | .short => return (.truncated none, taken.rest)
      | .fault detail => return (.failed (.io detail), taken.rest)

/-- **Decoding on from the opcode bytes is defined**, also where a descriptor declares fewer bytes
    than there are of them. -/
theorem decodeFrom?_eq (hlabels : decoder.labels.Indexed) (h : decoder.Addressable)
    (opcode : List UInt8) (source : Source) :
    decoder.decodeFrom? address opcode source =
      some (decoder.decodeFrom address opcode source) := by
  unfold decodeFrom? decodeFrom
  dsimp only
  cases decoder.visible? (Opcode.ofBytes opcode) with
  | none => rfl
  | some descriptor =>
    dsimp only
    cases hformat : decoder.format? descriptor with
    | none => rfl
    | some format =>
      have hmissing : minus? (max descriptor.length opcode.length) opcode.length =
          some (descriptor.length - opcode.length) := by
        rw [minus?_of_le (Nat.le_max_right _ _)]
        congr 1
        omega
      dsimp only
      rw [hmissing]
      dsimp only [Option.bind_eq_bind, Option.bind_some]
      cases hsupply : (source.take (descriptor.length - opcode.length)).supply with
      | short => rfl
      | fault detail => rfl
      | full =>
        have hlength := Source.length_of_full hsupply
        have hwhole : max descriptor.length opcode.length =
            (opcode ++ (source.take (descriptor.length - opcode.length)).bytes).length := by
          rw [List.length_append, hlength]
          omega
        unfold complete
        dsimp only
        rw [completeExtended?_eq hlabels h, from?_append, hwhole]
        cases descriptor.flags.extended with
        | true => rfl
        | false =>
          dsimp only [Option.bind_some]
          rw [if_neg Bool.false_ne_true, if_neg Bool.false_ne_true,
            instruction?_eq hlabels (h descriptor format hformat)]
          rfl

/-- Decodes the instruction at an address. -/
def decode? (decoder : Decoder) (address : Address) (source : Source) :
    Option (Reading × Source) :=
  match source.next with
  | (.endOfData, rest) => some (.endOfData, rest)
  | (.fault detail, rest) => some (.failed (.io detail), rest)
  | (.byte first, rest) =>
    if first ∈ decoder.instructions.leadIns then
      match rest.next with
      | (.endOfData, rest) => some (.truncated none, rest)
      | (.fault detail, rest) => some (.failed (.io detail), rest)
      | (.byte second, rest) => decoder.decodeFrom? address [first, second] rest
    else decoder.decodeFrom? address [first] rest

/-- **Decoding an instruction is defined.** -/
theorem decode?_eq (hlabels : decoder.labels.Indexed) (h : decoder.Addressable)
    (address : Address) (source : Source) :
    decoder.decode? address source = some (decoder.decode address source) := by
  unfold decode? decode
  rcases source.next with ⟨first | _ | detail, rest⟩ <;> dsimp only
  by_cases hlead : first ∈ decoder.instructions.leadIns
  · rw [if_pos hlead, if_pos hlead]
    rcases rest.next with ⟨second | _ | detail, rest⟩ <;> dsimp only
    exact decodeFrom?_eq hlabels h _ _
  · rw [if_neg hlead, if_neg hlead]
    exact decodeFrom?_eq hlabels h _ _

end Decoder

/-! ## 5. Layout -/

namespace Layout

/-- What stands to the left of a line. The last byte shown has no gap behind it. -/
def margin? (layout : Layout) (address : Address) (bytes : List UInt8) : Option String :=
  if layout.listing then do
    let shown := " ".intercalate ((bytes.take layout.shownBytes).map Hex.byte)
    let width ← minus? (layout.shownBytes * 3) 1
    return Hex.word address ++ "  " ++ Text.padRight width shown ++ "    "
  else some "   "

/-- There is room for one byte at least, even where the longest instruction is said to have none. -/
theorem margin?_eq (layout : Layout) (address : Address) (bytes : List UInt8) :
    layout.margin? address bytes = some (layout.margin address bytes) := by
  have hpos : 1 ≤ layout.shownBytes := Nat.le_max_right _ _
  unfold margin? margin
  cases layout.listing with
  | true => rw [if_pos rfl, if_pos rfl, minus?_of_le (by omega)]; rfl
  | false => rfl

def origin? (layout : Layout) (address : Address) : Option String := do
  return (← layout.margin? address []) ++ body (.directive ".org" ("$" ++ Hex.word address))

def trailer? (layout : Layout) (address : Address) : Option String := do
  return (← layout.margin? address []) ++ "end"

def line? (layout : Layout) (line : Line) : Option String := do
  return (← layout.margin? line.address line.bytes) ++ body line.body

theorem origin?_eq (layout : Layout) (address : Address) :
    layout.origin? address = some (layout.origin address) := by
  rw [origin?, margin?_eq]
  rfl

theorem trailer?_eq (layout : Layout) (address : Address) :
    layout.trailer? address = some (layout.trailer address) := by
  rw [trailer?, margin?_eq]
  rfl

theorem line?_eq (layout : Layout) (line : Line) :
    layout.line? line = some (layout.line line) := by
  rw [line?, margin?_eq]
  rfl

end Layout

/-! ## 6. Runs -/

/-- Writes lines, and goes on with the sink that took them, which may have no value. -/
def Sink.writing? (sink : Sink) (lines : List String) (go : Sink → Option Report) :
    Option Report :=
  match sink.writeAll (lines.map (· ++ "\n")) with
  | (sink, none) => go sink
  | (sink, some refusal) => some { result := .error (.io refusal), written := sink.held }

theorem Sink.writing?_eq {go? : Sink → Option Report} {go : Sink → Report}
    (h : ∀ sink, go? sink = some (go sink)) (sink : Sink) (lines : List String) :
    sink.writing? lines go? = some (sink.writing lines go) := by
  unfold writing? writing
  cases sink.writeAll (lines.map (· ++ "\n")) with
  | mk after refused =>
    cases refused with
    | none => exact h after
    | some refusal => rfl

namespace Disassembler

variable {d : Disassembler}

/-- Reads the unit at the cursor. -/
def readAt? (d : Disassembler) (cursor : Address) (source : Source) : Option (Reading × Source) :=
  match d.regions.at? cursor with
  | some region => region.readUnit? cursor source
  | none => d.decode? cursor source

/-- **Reading a unit is defined**: a region is asked only where it contains the cursor. -/
theorem readAt?_eq (hlabels : d.labels.Indexed) (h : d.Addressable) (cursor : Address)
    (source : Source) : d.readAt? cursor source = some (d.readAt cursor source) := by
  unfold readAt? readAt
  cases hregion : d.regions.at? cursor with
  | some region => exact Region.readUnit?_eq (contains_of_at? hregion) source
  | none => exact Decoder.decode?_eq hlabels h cursor source

/-- The line of the label at an address, if there is one. -/
def labelLines? (d : Disassembler) (address : Address) : Option (List String) := do
  return (← d.labels.nameWithin? address).toList.map Layout.label

/-- A run from a cursor on, behind so many units that are shown already. It goes on behind a unit
    only where that has used the source up by some, so a run without an end has no value either. -/
def runFrom? (d : Disassembler) (stopAfter : Option Nat) (lines : Nat) (cursor : Address)
    (source : Source) (sink : Sink) : Option Report :=
  let sum outcome lines (sink : Sink) : Option Report :=
    some { result := .ok { outcome, finalAddress := cursor, lines }, written := sink.held }
  if stopAfter.any (· ≤ source.consumed) then sum .interrupted lines sink
  else do
    let labels ← d.labelLines? cursor
    sink.writing? labels fun sink => do
      match ← d.readAt? cursor source with
      | (.line unit, rest) =>
        let shown ← d.layout.line? unit
        sink.writing? [shown] fun sink =>
          if _h : rest.pending.length < source.pending.length then
            runFrom? d stopAfter (lines + 1) (cursor.advance unit.bytes.length) rest sink
          else none
      | (.endOfData, _) =>
        let trailer ← d.layout.trailer? cursor
        sink.writing? ["", trailer] (sum .complete lines)
      | (.truncated part, _) =>
        let shown ← part.toList.mapM d.layout.line?
        sink.writing? shown (sum .truncated (lines + part.toList.length))
      | (.failed fault, _) => some { result := .error fault, written := sink.held }
termination_by source.pending.length
decreasing_by exact _h

/-- The run of `Disassembler.run`. -/
def run? (d : Disassembler) (source : Source) (stopAfter : Option Nat := none)
    (sink : Sink := {}) : Option Report := do
  let origin ← d.layout.origin? d.start
  sink.writing? [origin, ""] fun sink => d.runFrom? stopAfter 0 d.start source sink

theorem runFrom?_eq (hlabels : d.labels.Indexed) (h : d.Addressable) (stopAfter : Option Nat)
    (lines : Nat) (cursor : Address) (source : Source) (sink : Sink) :
    d.runFrom? stopAfter lines cursor source sink =
      some (d.runFrom stopAfter lines cursor source sink) := by
  induction hn : source.pending.length using Nat.strongRecOn
    generalizing lines cursor source sink with
  | _ n ih =>
    subst hn
    rw [runFrom?, runFrom]
    by_cases hstop : stopAfter.any (· ≤ source.consumed) = true
    · rw [if_pos hstop, if_pos hstop]
    · rw [if_neg hstop, if_neg hstop, labelLines?, LabelTable.nameWithin?_eq hlabels]
      refine Sink.writing?_eq (fun sink => ?_) sink _
      rw [readAt?_eq hlabels h]
      dsimp only [Option.bind_eq_bind, Option.bind_some]
      split <;> rename_i hread <;> rw [hread] <;> dsimp only
      · rename_i unit rest
        rw [Layout.line?_eq]
        refine Sink.writing?_eq (fun sink => ?_) sink _
        have hlt := readAt_line_lt hread
        rw [dif_pos hlt]
        exact ih _ hlt _ _ _ sink rfl
      · rw [Layout.trailer?_eq]
        exact Sink.writing?_eq (fun _ => rfl) sink _
      · rename_i part rest
        rw [mapM_of_forall fun part _ => d.layout.line?_eq part]
        exact Sink.writing?_eq (fun _ => rfl) sink _

/-- **Every operation of a run is defined**, whatever the instruction set says, whatever the
    regions are, and whatever the source and the sink answer. The labels are those of a table that
    was built, and the positions in pieces are machine words. -/
theorem run_is_defined (d : Disassembler) (hlabels : d.labels.Built) (h : d.Addressable)
    (source : Source) (stopAfter : Option Nat) (sink : Sink) :
    d.run? source stopAfter sink = some (d.run source stopAfter sink) := by
  rw [run?, Layout.origin?_eq, run_eq_runFrom]
  exact Sink.writing?_eq (fun sink => runFrom?_eq hlabels.indexed h stopAfter 0 d.start source sink)
    sink _

/-- A disassembler in which nothing fits: instructions of no length, an operand shown from bytes
    behind its end, a displacement of two bytes of which there is one, a mode that is missing, a
    longest instruction without bytes, a region from back to front, and words at the last
    address. -/
def careless : Disassembler where
  instructions :=
    { table := .build [
        [{ opcode := 0x00, length := 0, mnemonic := "nil", mode := "missing" },
          { opcode := 0x01, length := 0, mnemonic := "far", mode := "behind" },
          { opcode := 0xDD01, length := 3, mnemonic := "ext", mode := "behind",
            flags := { extended := true } },
          { opcode := 0xDD01FF, length := 0, mnemonic := "bra", mode := "wide",
            flags := { pcRelative := true } }]]
      modes := .ofModes
        [⟨"behind", .pieces [.word 5 .little, .target]⟩, ⟨"wide", .relative16 .big {}⟩]
      leadIns := [0xDD]
      maxLength := 0 }
  labels := (LabelTable.empty.add ⟨"one", 1⟩).add ⟨"other", 1⟩
  regions := [⟨9, 3, .string⟩, ⟨0xFFFF, 0xFFFF, .wordBigEndian⟩]
  start := 0xFFFF

/-- It runs over a word at the last address, two instructions, and into the missing mode. -/
theorem run_is_defined_careless :
    let source := Source.ofBytes [0x12, 0x34, 0x01, 0xDD, 0x01, 0xFF, 0x00]
    careless.labels.Built ∧ careless.Addressable ∧
    careless.run? source none {} = some (careless.run source none {}) := by
  intro source
  have hbuilt : careless.labels.Built := .add (.add .empty _) _
  have haddressable : careless.Addressable := by
    intro descriptor format hformat parts hparts index order hword
    obtain ⟨mode, hmode, -, rfl⟩ := ModeMap.exists_mode_of_getElem? hformat
    rcases List.mem_cons.mp hmode with rfl | hmode
    · cases hparts
      rcases List.mem_cons.mp hword with heq | hword
      · cases heq
        decide
      · cases List.mem_singleton.mp hword
    · cases List.mem_singleton.mp hmode
      cases hparts
  exact ⟨hbuilt, haddressable, run_is_defined careless hbuilt haddressable source none {}⟩

end Disassembler

end Disassembly
