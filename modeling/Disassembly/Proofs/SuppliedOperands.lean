import Mathlib.Data.List.Chain
import Disassembly.Proofs.BranchTargets
import Disassembly.Proofs.Encoding
import Disassembly.Proofs.Labelling
import Disassembly.Proofs.LegibleRows
import Disassembly.Proofs.ListingLines

/-!
# Operands with all their bytes

An operand byte that is not there is shown as `??`. This file says of which processors that cannot
happen: every entry must leave as many bytes to its operand as the format of its mode asks for, and
an opcode that ends behind its operand may ask for one byte only, since it gets no other
(`Processor.Supplies`). Then whatever is decoded, by whichever of its look-ups, has all values of
its operand (`Decoder.size_le_of_selection?`), and no mark of a missing one is ever shown
(`Decoder.unmarked_of_scan?`).

The registered processors are of that kind. One of them has registers that are named `?`, so a
single question mark is no mark, but two in a row are.
-/

namespace Disassembly

/-! ## 1. Marks -/

namespace Text

/-- No two characters of the text in a row are question marks. -/
def Unmarked (text : String) : Prop :=
  text.toList.IsChain fun c next => ¬ (c = '?' ∧ next = '?')

instance (text : String) : Decidable (Unmarked text) :=
  inferInstanceAs (Decidable (List.IsChain _ _))

theorem Unmarked.lacks_mark {text : String} (h : Unmarked text) :
    ¬ "??".toList <:+: text.toList := by
  intro hmark
  have hchain := List.IsChain.infix h hmark
  exact absurd hchain (by decide)

theorem unmarked_of_not_mem {text : String} (h : '?' ∉ text.toList) : Unmarked text :=
  List.IsChain.imp_of_mem_imp (fun _ _ hc _ _ hmark => h (hmark.1 ▸ hc)) (List.isChain_isInfix _)

/-- Two texts are kept apart by the comma between them. -/
theorem Unmarked.comma {text other : String} (h : Unmarked text) (hother : Unmarked other) :
    Unmarked (text ++ "," ++ other) := by
  have hcomma : ",".toList = [','] := rfl
  unfold Unmarked
  rw [String.toList_append, String.toList_append, hcomma]
  refine List.IsChain.append (List.IsChain.append h (List.isChain_singleton _) ?_) hother ?_
  · intro c _ next hnext hmark
    cases hnext
    exact absurd hmark.2 (by decide)
  · intro c hc next _ hmark
    rw [List.getLast?_concat] at hc
    cases hc
    exact absurd hmark.1 (by decide)

end Text

/-! ## 2. Operands -/

theorem not_mem_showByte (b : UInt8) : '?' ∉ (showByte (some b)).toList := by
  rw [showByte, String.toList_append, List.mem_append]
  rintro (hsign | hdigit)
  · exact absurd hsign (by decide)
  · exact absurd (Hex.mem_byte hdigit) (by decide)

theorem not_mem_showWord (w : UInt16) : '?' ∉ (showWord (some w)).toList := by
  rw [showWord, String.toList_append, List.mem_append]
  rintro (hsign | hdigit)
  · exact absurd hsign (by decide)
  · exact absurd (Hex.mem_word hdigit) (by decide)

/-- No name of the table has a question mark in it; so it is where there are no names. -/
def LabelTable.NoQuestion (labels : LabelTable) : Prop :=
  ∀ address name, labels.nameAt? address = some name → '?' ∉ name.toList

theorem LabelTable.noQuestion_empty : empty.NoQuestion := by
  intro address name hname
  rw [nameAt?_empty] at hname
  cases hname

theorem not_mem_showAddress {labels : LabelTable} (h : labels.NoQuestion) (address : Address) :
    '?' ∉ (showAddress labels (some address)).toList := by
  unfold showAddress
  split
  · rename_i name hname
    exact h address name hname
  · exact not_mem_showWord address

/-- A target that is not known is shown by the bare displacement, so it is enough that this is
    there. -/
theorem OperandContext.exists_of_fallback {fallback : Option UInt16}
    (h : ∃ displacement, fallback = some displacement) (target : Option Address) :
    ∃ address, (target <|> fallback) = some address := by
  cases target with
  | none => exact h
  | some address => exact ⟨address, rfl⟩

theorem OperandContext.exists_target8? {context : OperandContext}
    (h : ∃ b, context.bytes.getLast? = some b) : ∃ address, context.target8? = some address := by
  obtain ⟨b, hb⟩ := h
  unfold target8?
  rw [hb]
  exact exists_of_fallback ⟨b.toUInt16, rfl⟩ context.target

theorem OperandContext.exists_target16? {context : OperandContext} {order : ByteOrder}
    (h : ∃ w, lastWord? context.bytes order = some w) :
    ∃ address, context.target16? order = some address :=
  exists_of_fallback h context.target

namespace Piece

/-- What the piece shows is among the bytes. -/
def Supplied (operands : List UInt8) : Piece → Prop
  | text _ => True
  | byte index => ∃ b, operands[index]? = some b
  | word index order => ∃ w, wordAt? operands index order = some w
  | target => ∃ b, operands.getLast? = some b

theorem not_mem_render {piece : Piece} {context : OperandContext}
    (hsupplied : piece.Supplied context.bytes) (htexts : ∀ text ∈ piece.texts, '?' ∉ text.toList)
    (hlabels : context.labels.NoQuestion) : '?' ∉ (piece.render context).toList := by
  cases piece with
  | text shown => exact htexts shown List.mem_cons_self
  | byte index =>
    obtain ⟨b, hb⟩ := hsupplied
    rw [render, hb]
    exact not_mem_showByte b
  | word index order =>
    obtain ⟨w, hw⟩ := hsupplied
    rw [render, hw]
    exact not_mem_showWord w
  | target =>
    obtain ⟨address, haddress⟩ := OperandContext.exists_target8? hsupplied
    rw [render, haddress]
    exact not_mem_showAddress hlabels address

end Piece

theorem Affix.not_mem_wrap {affix : Affix} {value : String}
    (htexts : ∀ text ∈ affix.texts, '?' ∉ text.toList) (hvalue : '?' ∉ value.toList) :
    '?' ∉ (affix.wrap value).toList := by
  have hbefore := htexts affix.before List.mem_cons_self
  have hafter := htexts affix.after (List.mem_cons_of_mem _ List.mem_cons_self)
  rw [wrap, String.toList_append, String.toList_append, List.mem_append, List.mem_append]
  rintro ((hmem | hmem) | hmem)
  · exact hbefore hmem
  · exact hvalue hmem
  · exact hafter hmem

namespace OperandFormat

/-- **Every value that the format shows is among the bytes**: a number by its own bytes, the target
    of a branch by the displacement, two registers by the byte that names them. -/
def Supplied (operands : List UInt8) : OperandFormat → Prop
  | implied | fixed _ => True
  | byte _ | registerPair _ => ∃ b, operands.head? = some b
  | word order _ _ => ∃ w, wordAt? operands 0 order = some w
  | relative8 _ => ∃ b, operands.getLast? = some b
  | relative16 order _ => ∃ w, lastWord? operands order = some w
  | pieces parts => ∀ piece ∈ parts, piece.Supplied operands

/-- **Pieces ask for as many bytes as the most demanding of them.** -/
theorem operandBytes_pieces_le_iff {parts : List Piece} {count : Nat} :
    (pieces parts).operandBytes ≤ count ↔ ∀ piece ∈ parts, piece.operandBytes ≤ count := by
  refine (List.max?_le_iff List.max?_cons').trans ?_
  rw [List.forall_mem_cons, List.forall_mem_map, and_iff_right (Nat.zero_le count)]

/-- **As many bytes as the instruction spends on the operand supply its format.** -/
theorem supplied_of_size_le {format : OperandFormat} {operands : List UInt8}
    (h : format.size ≤ operands.length) : format.Supplied operands := by
  cases format with
  | implied => trivial
  | fixed shown => trivial
  | byte affix => exact ⟨_, List.head?_eq_some_head (List.ne_nil_of_length_pos h)⟩
  | registerPair names => exact ⟨_, List.head?_eq_some_head (List.ne_nil_of_length_pos h)⟩
  | word order affix label => exact ⟨_, wordAt?_eq_some h order⟩
  | relative8 affix => exact exists_getLast? h
  | relative16 order affix => exact exists_lastWord? order h
  | pieces parts =>
    intro piece hpiece
    have hall : (pieces parts).operandBytes + (if (pieces parts).isRelative then 1 else 0) ≤
        operands.length := h
    have hshown := operandBytes_pieces_le_iff.mp (Nat.le_refl _) piece hpiece
    cases piece with
    | text shown => trivial
    | byte index =>
      have hlt : index + 1 ≤ (pieces parts).operandBytes := hshown
      exact ⟨_, List.getElem?_eq_getElem (by omega)⟩
    | word index order =>
      have hlt : index + 2 ≤ (pieces parts).operandBytes := hshown
      exact ⟨_, wordAt?_eq_some (by omega) order⟩
    | target =>
      have hrelative : (pieces parts).isRelative = true := List.contains_iff_mem.mpr hpiece
      rw [if_pos hrelative] at hall
      exact exists_getLast? (by omega)

/-- The texts that the format fixes have no question mark in them, but for the names of registers,
    which have not two in a row. -/
def Unmarked : OperandFormat → Prop
  | registerPair names => ∀ name ∈ names.toList, Text.Unmarked name
  | implied => True
  | fixed shown => '?' ∉ shown.toList
  | byte affix | word _ affix _ | relative8 affix | relative16 _ affix =>
    ∀ text ∈ affix.texts, '?' ∉ text.toList
  | pieces parts => ∀ piece ∈ parts, ∀ text ∈ piece.texts, '?' ∉ text.toList

instance : (format : OperandFormat) → Decidable format.Unmarked
  | registerPair names => inferInstanceAs (Decidable (∀ name ∈ names.toList, Text.Unmarked name))
  | implied => inferInstanceAs (Decidable True)
  | fixed shown => inferInstanceAs (Decidable ('?' ∉ shown.toList))
  | byte affix | word _ affix _ | relative8 affix | relative16 _ affix =>
    inferInstanceAs (Decidable (∀ text ∈ affix.texts, '?' ∉ text.toList))
  | pieces parts =>
    inferInstanceAs (Decidable (∀ piece ∈ parts, ∀ text ∈ piece.texts, '?' ∉ text.toList))

/-- **Where all values are there, no mark of a missing one is shown.** -/
theorem unmarked_render {format : OperandFormat} {context : OperandContext}
    (hsupplied : format.Supplied context.bytes) (htexts : format.Unmarked)
    (hlabels : context.labels.NoQuestion) : Text.Unmarked (format.render context) := by
  cases format with
  | implied => exact (by decide : Text.Unmarked "")
  | fixed shown => exact Text.unmarked_of_not_mem htexts
  | byte affix =>
    obtain ⟨b, hb⟩ := hsupplied
    rw [render, hb]
    exact Text.unmarked_of_not_mem (Affix.not_mem_wrap htexts (not_mem_showByte b))
  | word order affix label =>
    obtain ⟨w, hw⟩ := hsupplied
    rw [render, hw]
    refine Text.unmarked_of_not_mem (Affix.not_mem_wrap htexts ?_)
    split
    · exact not_mem_showAddress hlabels w
    · exact not_mem_showWord w
  | relative8 affix =>
    obtain ⟨address, haddress⟩ := OperandContext.exists_target8? hsupplied
    rw [render, haddress]
    exact Text.unmarked_of_not_mem (Affix.not_mem_wrap htexts (not_mem_showAddress hlabels address))
  | relative16 order affix =>
    obtain ⟨address, haddress⟩ := OperandContext.exists_target16? hsupplied
    rw [render, haddress]
    exact Text.unmarked_of_not_mem (Affix.not_mem_wrap htexts (not_mem_showAddress hlabels address))
  | registerPair names =>
    have hname : ∀ index : Fin 16, Text.Unmarked (names.get index) := fun index =>
      htexts _ (Vector.mem_toList_iff.mpr (Vector.getElem_mem index.isLt))
    obtain ⟨b, hb⟩ := hsupplied
    simp only [render, hb]
    exact (hname _).comma (hname _)
  | pieces parts =>
    refine Text.unmarked_of_not_mem ?_
    rw [render, String.toList_join, List.mem_flatMap]
    rintro ⟨shown, hshown, hmem⟩
    obtain ⟨piece, hpiece, rfl⟩ := List.mem_map.mp hshown
    exact Piece.not_mem_render (hsupplied piece hpiece) (htexts piece hpiece) hlabels hmem

end OperandFormat

/-! ## 3. Processors -/

/-- How many bytes an entry leaves to its operand. An opcode that ends behind its operand gets the
    first byte behind its front, whatever length it declares. -/
def OpcodeEntry.room (entry : OpcodeEntry) : Nat :=
  if entry.opcode < 0x10000 then entry.length - Opcode.byteCount entry.opcode else 1

/-- What the lists of a processor must say for every operand to have its bytes. -/
structure Processor.Supplies (processor : Processor) : Prop where
  /-- An opcode that is led in is not taken for one of a single byte. -/
  leadIns : 0 ∉ processor.leadIns
  /-- What goes on behind its operand has two opcode bytes in front of it. -/
  front : ∀ layer ∈ processor.layers, ∀ entry ∈ layer, entry.flags.extended = true →
    0x100 ≤ entry.opcode
  room : ∀ layer ∈ processor.layers, ∀ entry ∈ layer, ∀ mode ∈ processor.modes,
    mode.key = entry.mode → mode.format.size ≤ entry.room
  texts : ∀ mode ∈ processor.modes, mode.format.Unmarked

/-- A row leaves room for its own operand, unless the opcode ends behind it. -/
theorem Row.size_le_room (row : Row) (h : 0x10000 ≤ row.opcode → row.mode.format.size ≤ 1) :
    row.mode.format.size ≤ row.entry.room := by
  unfold OpcodeEntry.room
  split
  · show row.mode.format.size ≤ Opcode.byteCount row.opcode + row.mode.format.size +
      (if row.continued then 1 else 0) - Opcode.byteCount row.opcode
    omega
  · rename_i hlong
    exact h (Nat.le_of_not_lt hlong)

theorem Nmos6502.processor_supplies : processor.Supplies where
  leadIns := by decide
  front := by decide +kernel
  room := by decide +kernel
  texts := by decide +kernel

theorem Cmos65C02.processor_supplies : processor.Supplies where
  leadIns := by decide
  front := by decide +kernel
  room := by decide +kernel
  texts := by decide +kernel

theorem Motorola6809.processor_supplies : processor.Supplies where
  leadIns := by decide
  front := by decide +kernel
  room := by decide +kernel
  texts := by decide +kernel

namespace ZilogZ80

/-- How many bytes a key stands for: as many as it has capital letters. -/
def keySize (key : String) : Nat := key.toList.countP Char.isUpper

/-- The key of a mode shows its size. So modes with one key have one size, and there is no need to
    compare the mode of every row with those of all others. -/
theorem size_eq_keySize : ∀ row ∈ pages.flatten, row.mode.format.size = keySize row.mode.key := by
  decide +kernel

theorem front_of_row : ∀ row ∈ pages.flatten, row.continued = true → 0x100 ≤ row.opcode := by
  decide +kernel

theorem size_of_long : ∀ row ∈ pages.flatten, 0x10000 ≤ row.opcode → row.mode.format.size ≤ 1 := by
  decide +kernel

theorem texts_of_row : ∀ row ∈ pages.flatten, row.mode.format.Unmarked := by
  decide +kernel

theorem processor_supplies : processor.Supplies where
  leadIns := by decide
  front := by
    intro layer hlayer entry hentry hextended
    obtain ⟨page, hpage, row, hrow, rfl⟩ := Rows.exists_row_of_mem_entries hlayer hentry
    exact front_of_row row (List.mem_flatten.mpr ⟨page, hpage, hrow⟩) hextended
  room := by
    intro layer hlayer entry hentry mode hmode hkey
    obtain ⟨page, hpage, row, hrow, rfl⟩ := Rows.exists_row_of_mem_entries hlayer hentry
    have hmem : row ∈ pages.flatten := List.mem_flatten.mpr ⟨page, hpage, hrow⟩
    obtain ⟨other, hother, rfl⟩ := List.mem_map.mp hmode
    have hsame : other.mode.key = row.mode.key := hkey
    rw [size_eq_keySize other hother, hsame, ← size_eq_keySize row hmem]
    exact row.size_le_room (size_of_long row hmem)
  texts := by
    intro mode hmode
    obtain ⟨row, hrow, rfl⟩ := List.mem_map.mp hmode
    exact texts_of_row row hrow

end ZilogZ80

theorem Registry.supplies_of_mem {processor : Processor} (h : processor ∈ processors) :
    processor.Supplies := by
  simp only [processors, List.mem_cons, List.not_mem_nil, or_false] at h
  rcases h with rfl | rfl | rfl | rfl
  · exact Nmos6502.processor_supplies
  · exact Cmos65C02.processor_supplies
  · exact Motorola6809.processor_supplies
  · exact ZilogZ80.processor_supplies

/-! ## 4. Decoding -/

namespace Decoder

variable {decoder : Decoder} {processor : Processor} {address : Address} {opcode bytes : List UInt8}

/-- What a look-up finds has room for the operand of its mode. -/
theorem size_le_room_of_visible? (hset : decoder.instructions = processor.instructionSet)
    (hsupplies : processor.Supplies) {key : Nat} {descriptor : Descriptor} {format : OperandFormat}
    (hvisible : decoder.visible? key = some descriptor)
    (hformat : decoder.format? descriptor = some format) :
    ∃ layer ∈ processor.layers, ∃ entry ∈ layer, entry.opcode = key ∧
      entry.toDescriptor = descriptor ∧ format.size ≤ entry.room := by
  obtain ⟨⟨layer, hlayer, entry, hentry, hopcode, rfl⟩, -⟩ :=
    exists_entry_of_visible? hset hvisible
  obtain ⟨mode, hmode, hkey, rfl⟩ := exists_mode_of_format? hset hformat
  exact ⟨layer, hlayer, entry, hentry, hopcode, rfl,
    hsupplies.room layer hlayer entry hentry mode hmode hkey⟩

/-- The opcode in front of an operand says how many bytes it has. -/
theorem length_of_opens (hset : decoder.instructions = processor.instructionSet)
    (hsupplies : processor.Supplies)
    (hopcode : (∃ first, opcode = [first] ∧ first ∉ decoder.instructions.leadIns) ∨
      ∃ first second, opcode = [first, second] ∧ first ∈ decoder.instructions.leadIns) :
    Opcode.ofBytes opcode < 0x10000 ∧
      Opcode.byteCount (Opcode.ofBytes opcode) = opcode.length := by
  rcases hopcode with ⟨first, rfl, -⟩ | ⟨first, second, rfl, hlead⟩
  · have hfirst := first.toNat_lt
    have hkey : Opcode.ofBytes [first] = first.toNat := by simp [Opcode.ofBytes]
    rw [hkey, Opcode.byteCount, if_pos hfirst]
    exact ⟨by omega, rfl⟩
  · have hfirst := first.toNat_lt
    have hsecond := second.toNat_lt
    have hne : first ≠ 0 := by
      rintro rfl
      rw [hset] at hlead
      exact hsupplies.leadIns hlead
    have hpos : 0 < first.toNat := Nat.pos_of_ne_zero fun hzero => hne (UInt8.toNat_inj.mp hzero)
    have hkey : Opcode.ofBytes [first, second] = first.toNat * 256 + second.toNat := by
      simp [Opcode.ofBytes]
    rw [hkey, Opcode.byteCount, if_neg (by omega), if_pos (by omega)]
    exact ⟨by omega, rfl⟩

/-- The format that is selected is that of the mode of the instruction. -/
theorem format?_of_selection? {selection : Selection}
    (h : decoder.selection? bytes = some selection) :
    decoder.format? selection.descriptor = some selection.format := by
  obtain ⟨front, -, h⟩ := Option.bind_eq_some_iff.mp h
  split at h
  · obtain ⟨last, -, h⟩ := Option.bind_eq_some_iff.mp h
    obtain ⟨child, -, h⟩ := Option.bind_eq_some_iff.mp h
    obtain ⟨format, hformat, h⟩ := Option.bind_eq_some_iff.mp h
    cases h
    exact hformat
  · obtain ⟨format, hformat, h⟩ := Option.bind_eq_some_iff.mp h
    cases h
    exact hformat

/-- **Every operand is shown from as many bytes as its format asks for.** -/
theorem size_le_of_selection? (hset : decoder.instructions = processor.instructionSet)
    (hsupplies : processor.Supplies) {unit : Line} {taken : List UInt8} {selection : Selection}
    (h : decoder.scan? address bytes = some { reading := .line unit, taken })
    (hselected : decoder.selection? unit.bytes = some selection) :
    selection.format.size ≤ selection.operands.length := by
  have halone := scan?_taken h
  obtain ⟨-, -, ⟨-, rfl⟩, -⟩ := scan?_spec h
  obtain ⟨opcode, operands, hbytes, hfrom, hopcode⟩ := exists_opcode_of_scan? halone
  dsimp only at hbytes
  rw [hbytes, selection?, frontLength_of_opcode operands hopcode] at hselected
  simp only [List.take_left, List.drop_left] at hselected
  rcases scanFrom?_cases hfrom with ⟨hhidden, -⟩ | ⟨descriptor, -, -, hunknown⟩ |
    ⟨descriptor, format, hvisible, hformat, hthere, -⟩
  · rw [hhidden] at hselected
    cases hselected
  · cases hunknown
  · obtain ⟨layer, hlayer, entry, hentry, hkey, rfl, hroom⟩ :=
      size_le_room_of_visible? hset hsupplies hvisible hformat
    obtain ⟨hshort, hcount⟩ := length_of_opens hset hsupplies hopcode
    rw [hvisible] at hselected
    simp only [Option.bind_eq_bind, Option.bind_some] at hselected
    split at hselected
    · rename_i hextended
      obtain ⟨last, hlast, hselected⟩ := Option.bind_eq_some_iff.mp hselected
      obtain ⟨child, hchild, hselected⟩ := Option.bind_eq_some_iff.mp hselected
      obtain ⟨childFormat, hchildFormat, hselected⟩ := Option.bind_eq_some_iff.mp hselected
      cases hselected
      obtain ⟨-, -, ending, -, hending, -, hone⟩ :=
        size_le_room_of_visible? hset hsupplies hchild hchildFormat
      -- two opcode bytes in front and one behind: what is found there may ask for one byte only
      have hfront := hsupplies.front layer hlayer entry hentry hextended
      have hlong : ¬ ending.opcode < 0x10000 := by
        rw [hending, Opcode.ofBytes_concat, ← hkey]
        omega
      rw [OpcodeEntry.room, if_neg hlong] at hone
      have hthere := List.length_pos_of_mem (List.mem_of_getLast? hlast)
      dsimp only
      rw [List.length_take]
      omega
    · rw [hformat] at hselected
      cases hselected
      rw [OpcodeEntry.room, if_pos (hkey ▸ hshort), hkey, hcount] at hroom
      exact Nat.le_trans hroom hthere

/-- What a unit of an instruction shows is that instruction's own operand. -/
theorem operand_of_unit {mnemonic operand shown text : String}
    (h : (decoder.unit address bytes mnemonic operand).body = .instruction shown text) :
    text = operand := by
  unfold unit at h
  dsimp only at h
  split at h
  · cases h
  · exact (Body.instruction.inj h).2.symm

/-- **No mark of a missing byte is shown.** -/
theorem unmarked_of_scan? (hset : decoder.instructions = processor.instructionSet)
    (hsupplies : processor.Supplies) (hlabels : decoder.labels.NoQuestion) {unit : Line}
    {taken : List UInt8} {mnemonic operand : String}
    (h : decoder.scan? address bytes = some { reading := .line unit, taken })
    (hbody : unit.body = .instruction mnemonic operand) : Text.Unmarked operand := by
  have hline := line_of_scan? h
  cases hselected : decoder.selection? unit.bytes with
  | none =>
    rw [hselected] at hline
    rw [hline] at hbody
    rw [operand_of_unit hbody]
    decide
  | some selection =>
    have hsupplied := OperandFormat.supplied_of_size_le
      (size_le_of_selection? hset hsupplies h hselected)
    obtain ⟨mode, hmode, -, hformat⟩ :=
      exists_mode_of_format? hset (format?_of_selection? hselected)
    rw [hselected] at hline
    rw [hline] at hbody
    rw [operand_of_unit hbody]
    exact OperandFormat.unmarked_render hsupplied (hformat ▸ hsupplies.texts mode hmode) hlabels

end Decoder

/-! ## 5. The registered processors -/

namespace Disassembler

variable {d : Disassembler} {source : Source} {stopAfter : Option Nat}

/-- What is shown of a unit that the data cut short is part of a string. -/
theorem eq_string_of_ending {part : Line}
    (h : (d.trace source stopAfter).ending = .truncated (some part)) :
    ∃ address rest, part = DataKind.string.line address rest := by
  have hwalk : d.trace source stopAfter = d.trace source := by
    refine walk_of_not_interrupted d.start source fun hstopped => ?_
    exact absurd (h.symm.trans hstopped) nofun
  obtain ⟨rest, -, hends⟩ := walk_eq_iff.mp hwalk.symm
  obtain ⟨-, hpart⟩ := hends.part_eq
  exact ⟨_, rest, hpart part (congrArg Ending.part h)⟩

/-- **No mark of a missing byte is listed.** -/
theorem unmarked_of_mem_emitted {processor : Processor}
    (hset : d.instructions = processor.instructionSet) (hsupplies : processor.Supplies)
    (hlabels : d.labels.NoQuestion) {unit : Line} {mnemonic operand : String}
    (hunit : unit ∈ (d.trace source stopAfter).emitted)
    (hbody : unit.body = .instruction mnemonic operand) : Text.Unmarked operand := by
  have hcomplete : unit ∈ (d.trace source stopAfter).units → Text.Unmarked operand := by
    intro hmem
    rcases (settles_of_mem_units hmem).cases with ⟨region, -, -, hdata⟩ | hscan
    · rw [hdata] at hbody
      cases hbody
    · exact Decoder.unmarked_of_scan? hset hsupplies hlabels hscan hbody
  rcases (d.trace source stopAfter).emitted_cases with hall | ⟨part, hending, hall⟩
  · exact hcomplete (hall ▸ hunit)
  · rw [hall] at hunit
    rcases List.mem_append.mp hunit with hmem | hmem
    · exact hcomplete hmem
    · obtain ⟨address, rest, hstring⟩ := eq_string_of_ending hending
      rw [List.mem_singleton.mp hmem, hstring] at hbody
      cases hbody

/-- **No operand of a registered processor misses a byte.** With whatever options, labels and
    regions, and from any source: an instruction that is decoded, on whichever way, is shown from as
    many bytes as its format asks for, so that every value in it is one of these bytes. And in a run
    without labels, or with labels in whose names there is no question mark, no instruction that is
    listed has two question marks in a row in its operand; what stands in a region is no
    instruction. -/
theorem operands_supplied (processor : Processor) (hprocessor : processor ∈ Registry.processors)
    (options : Options) (labels : LabelTable) (regions : RegionTable) :
    let d : Disassembler := { ofProcessor processor options with labels, regions }
    (∀ address source unit rest, d.toDecoder.decode address source = (.line unit, rest) →
      unit = d.toDecoder.unitOf address unit.bytes (d.toDecoder.selection? unit.bytes) ∧
      ∀ selection, d.toDecoder.selection? unit.bytes = some selection →
        selection.format.size ≤ selection.operands.length ∧
          selection.format.Supplied selection.operands) ∧
    (labels.NoQuestion → ∀ source stopAfter, ∀ unit ∈ (d.trace source stopAfter).emitted,
      ∀ mnemonic operand, unit.body = .instruction mnemonic operand →
        ¬ "??".toList <:+: operand.toList) := by
  intro d
  have hset : d.instructions = processor.instructionSet := rfl
  have hsupplies := Registry.supplies_of_mem hprocessor
  refine ⟨fun address source unit rest hline => ?_,
    fun hlabels source stopAfter unit hunit mnemonic operand hbody => ?_⟩
  · obtain ⟨hscan, -⟩ := Decoder.scan?_of_decode_line hline
    obtain ⟨-, -, ⟨rfl, -⟩, -⟩ := Decoder.scan?_spec hscan
    refine ⟨Decoder.line_of_scan? hscan, fun selection hselected => ?_⟩
    have hsize := Decoder.size_le_of_selection? hset hsupplies hscan hselected
    exact ⟨hsize, OperandFormat.supplied_of_size_le hsize⟩
  · exact (unmarked_of_mem_emitted hset hsupplies hlabels hunit hbody).lacks_mark

/-- A transfer between two of the registers that are named `?`, and a load behind a lead-in byte. -/
theorem operands_supplied_unassigned :
    let d : Disassembler := { ofProcessor Motorola6809.processor {} with
      labels := .empty, regions := [] }
    let transfer : Line := ⟨0, [0x1F, 0x66], .instruction "tfr" "?,?"⟩
    let load : Line := ⟨2, [0x10, 0x8E, 0x12, 0x34], .instruction "ldy" "#$1234"⟩
    Motorola6809.processor ∈ Registry.processors ∧
    (d.trace (.ofBytes [0x1F, 0x66, 0x10, 0x8E, 0x12, 0x34])).emitted = [transfer, load] ∧
    ¬ "??".toList <:+: "?,?".toList ∧
    ∃ selection, d.toDecoder.selection? load.bytes = some selection ∧
      selection.format = .word .big ⟨"#", ""⟩ false ∧
      selection.format.Supplied selection.operands := by
  intro d transfer load
  have hmem : Motorola6809.processor ∈ Registry.processors :=
    List.mem_cons_of_mem _ (List.mem_cons_of_mem _ List.mem_cons_self)
  have hunits : (d.trace (.ofBytes [0x1F, 0x66, 0x10, 0x8E, 0x12, 0x34])).emitted =
      [transfer, load] := by decide +kernel
  have hload : d.toDecoder.decode 2 (.ofBytes [0x10, 0x8E, 0x12, 0x34]) =
      (.line load, { pending := [], consumed := 4 }) := by decide +kernel
  have hselected : d.toDecoder.selection? load.bytes = some
      { descriptor := { length := 4, mnemonic := "ldy", mode := "imm16" }
        format := .word .big ⟨"#", ""⟩ false
        operands := [0x12, 0x34] } := by decide +kernel
  obtain ⟨hdecoded, hlisted⟩ :=
    operands_supplied Motorola6809.processor hmem {} .empty []
  obtain ⟨-, hsupplied⟩ := hdecoded 2 (.ofBytes [0x10, 0x8E, 0x12, 0x34]) load _ hload
  have hfirst := hlisted LabelTable.noQuestion_empty (.ofBytes [0x1F, 0x66, 0x10, 0x8E, 0x12, 0x34])
    none transfer (hunits ▸ List.mem_cons_self) "tfr" "?,?" rfl
  exact ⟨hmem, hunits, hfirst, _, hselected, rfl, (hsupplied _ hselected).2⟩

end Disassembler

end Disassembly
