import Mathlib.Algebra.Order.BigOperators.Group.List
import Mathlib.Algebra.Order.Group.Nat
import Disassembly.Operand
import Disassembly.Proofs.Digits

/-!
# What the text of an operand says

Most formats are rows of pieces: fixed texts, and numbers of a fixed width (`OperandFormat.parts?`,
`OperandFormat.render_eq_join`). So two operands of one such format with the same text agree piece
by piece (`eq_of_join_eq`), and therefore in every byte that a piece reveals
(`bytes_eq_of_render_eq`). A branch target reveals its displacement, since it is taken from a known
address (`Address.relative8_injective`).

Which format an operand has shows in its text too: with all digits made the same, the text is a
matter of the format alone (`OperandFormat.map_mask_render`).

All of this is said of operands in which no label stands for an address.
-/

namespace Disassembly

/-! ## 1. Words and branch targets -/

theorem ByteOrder.toNat_word_little (first second : UInt8) :
    (little.word first second).toNat = second.toNat * 256 + first.toNat := by
  have hfirst := first.toNat_lt
  have hsecond := second.toNat_lt
  have hword : (little.word first second).toNat =
      (second.toNat * 256 % 65536 + first.toNat) % 65536 := by
    simp [word, UInt16.toNat_add, UInt16.toNat_mul]
  omega

theorem ByteOrder.toNat_word_big (first second : UInt8) :
    (big.word first second).toNat = first.toNat * 256 + second.toNat := by
  have hfirst := first.toNat_lt
  have hsecond := second.toNat_lt
  have hword : (big.word first second).toNat =
      (first.toNat * 256 % 65536 + second.toNat) % 65536 := by
    simp [word, UInt16.toNat_add, UInt16.toNat_mul]
  omega

/-- A word says which two bytes it was made of. -/
theorem ByteOrder.word_injective {order : ByteOrder} {first second first' second' : UInt8}
    (h : order.word first second = order.word first' second') :
    first = first' ∧ second = second' := by
  have hfirst := first.toNat_lt
  have hsecond := second.toNat_lt
  have hfirst' := first'.toNat_lt
  have hsecond' := second'.toNat_lt
  have hnat := congrArg UInt16.toNat h
  rw [← UInt8.toNat_inj, ← UInt8.toNat_inj]
  cases order with
  | little =>
    rw [toNat_word_little, toNat_word_little] at hnat
    omega
  | big =>
    rw [toNat_word_big, toNat_word_big] at hnat
    omega

namespace Address

/-- How far a displacement leads in the direction of higher addresses. -/
def reach (displacement : UInt8) : Nat :=
  if displacement < 0x80 then displacement.toNat else 0xFF00 + displacement.toNat

theorem toNat_relative8 (address : Address) (displacement : UInt8) (length : Nat) :
    (address.relative8 displacement length).toNat =
      ((address.advance length).toNat + reach displacement) % 65536 := by
  have hd := displacement.toNat_lt
  unfold relative8 reach
  split
  · rw [UInt16.toNat_add, UInt8.toNat_toUInt16]
  · rw [UInt16.toNat_sub, UInt16.toNat_sub, UInt8.toNat_toUInt16]
    show (65536 - (65536 - displacement.toNat + 256) % 65536 + (address.advance length).toNat) %
      65536 = _
    omega

/-- **A branch target says which displacement leads there**, also over the end of the address
    space: no two displacements lead equally far. -/
theorem relative8_injective {address : Address} {displacement displacement' : UInt8} {length : Nat}
    (h : address.relative8 displacement length = address.relative8 displacement' length) :
    displacement = displacement' := by
  have hd := displacement.toNat_lt
  have hd' := displacement'.toNat_lt
  have hnat := congrArg UInt16.toNat h
  rw [toNat_relative8, toNat_relative8] at hnat
  unfold reach at hnat
  simp only [UInt8.lt_iff_toNat_lt] at hnat
  rw [← UInt8.toNat_inj]
  split at hnat <;> split at hnat <;> omega

end Address

/-! ## 2. Numbers -/

/-- Behind the sign stand the digits of the byte, or none where there is no byte. -/
theorem value?_showByte (value : Option UInt8) :
    Hex.value? ((showByte value).toList.drop 1) = value.map UInt8.toNat := by
  cases value with
  | none => rfl
  | some b =>
    rw [showByte, String.toList_append]
    exact Hex.value?_byte b

theorem value?_showWord (value : Option UInt16) :
    Hex.value? ((showWord value).toList.drop 1) = value.map UInt16.toNat := by
  cases value with
  | none => rfl
  | some w =>
    rw [showWord, String.toList_append]
    exact Hex.value?_word w

theorem showByte_injective {value value' : Option UInt8} (h : showByte value = showByte value') :
    value = value' := by
  have hnat := value?_showByte value
  rw [h, value?_showByte] at hnat
  exact (Option.map_inj_right fun _ _ => UInt8.toNat_inj.mp).mp hnat.symm

theorem showWord_injective {value value' : Option UInt16} (h : showWord value = showWord value') :
    value = value' := by
  have hnat := value?_showWord value
  rw [h, value?_showWord] at hnat
  exact (Option.map_inj_right fun _ _ => UInt16.toNat_inj.mp).mp hnat.symm

theorem length_showByte (value : Option UInt8) : (showByte value).toList.length = 3 := by
  cases value with
  | none => rfl
  | some b => rw [showByte, String.toList_append, List.length_append, Hex.length_byte]; rfl

theorem length_showWord (value : Option UInt16) : (showWord value).toList.length = 5 := by
  cases value with
  | none => rfl
  | some w => rw [showWord, String.toList_append, List.length_append, Hex.length_word]; rfl

theorem wordAt?_eq_some {bytes : List UInt8} {index : Nat} (h : index + 1 < bytes.length)
    (order : ByteOrder) :
    wordAt? bytes index order = some (order.word bytes[index] bytes[index + 1]) := by
  unfold wordAt?
  rw [List.getElem?_eq_getElem (Nat.lt_of_succ_lt h), List.getElem?_eq_getElem h]

/-- The context has no name for any address. -/
def OperandContext.NoNames (context : OperandContext) : Prop :=
  ∀ address, context.labels.nameAt? address = none

theorem showAddress_of_no_names {context : OperandContext} (h : context.NoNames)
    (address : Option Address) : showAddress context.labels address = showWord address := by
  unfold showAddress
  cases address with
  | none => rfl
  | some a => rw [Option.bind_some, h a]

/-- The target of the context is where the last of its bytes leads, from an address and over so
    many bytes. -/
def OperandContext.Branches (context : OperandContext) (address : Address) (length : Nat) : Prop :=
  context.target = context.bytes.getLast?.map fun displacement =>
    address.relative8 displacement length

theorem target8?_of_branches {context : OperandContext} {address : Address} {length index : Nat}
    (h : context.Branches address length) (hlast : index + 1 = context.bytes.length) :
    context.target8? = some (address.relative8 context.bytes[index] length) := by
  have hget : context.bytes.getLast? = some context.bytes[index] := by
    have hindex : context.bytes.length - 1 = index := by omega
    rw [List.getLast?_eq_getElem?, hindex]
    exact List.getElem?_eq_getElem _
  have htarget : context.target = some (address.relative8 context.bytes[index] length) := by
    rw [h, hget]
    rfl
  rw [OperandContext.target8?, htarget]
  rfl

/-! ## 3. Pieces -/

/-- Two rows of texts that come to the same text agree text by text, if those of the one row are
    nowhere the longer ones. -/
theorem eq_of_join_eq {α : Type} {texts others : α → String} {items : List α}
    (hle : ∀ item ∈ items, (texts item).toList.length ≤ (others item).toList.length)
    (h : String.join (items.map texts) = String.join (items.map others)) :
    ∀ item ∈ items, texts item = others item := by
  have hlist := congrArg String.toList h
  rw [String.toList_join, String.toList_join, List.flatMap_map, List.flatMap_map] at hlist
  clear h
  induction items with
  | nil => simp
  | cons item items ih =>
    have hitem := hle item List.mem_cons_self
    have hitems := fun other hother => hle other (List.mem_cons_of_mem item hother)
    have hrest : (items.flatMap fun other => (texts other).toList).length ≤
        (items.flatMap fun other => (others other).toList).length := by
      rw [List.length_flatMap, List.length_flatMap]
      exact List.sum_le_sum hitems
    rw [List.flatMap_cons, List.flatMap_cons] at hlist
    have hlength := congrArg List.length hlist
    rw [List.length_append, List.length_append] at hlength
    -- neither the first texts nor the rests can differ in length, since both differ the same way
    obtain ⟨hfirst, hbehind⟩ := List.append_inj hlist (by omega)
    intro other hother
    rcases List.mem_cons.mp hother with rfl | hother
    · exact String.toList_injective hfirst
    · exact ih hitems hbehind other hother

namespace Piece

variable {context context' : OperandContext}

theorem render_target (h : context.NoNames) : target.render context = showWord context.target8? :=
  showAddress_of_no_names h _

/-- Pieces have a fixed width. -/
theorem length_render (piece : Piece) (h : context.NoNames) (h' : context'.NoNames) :
    (piece.render context).toList.length = (piece.render context').toList.length := by
  cases piece with
  | text shown => rfl
  | byte index => rw [render, render, length_showByte, length_showByte]
  | word index order => rw [render, render, length_showWord, length_showWord]
  | target => rw [render_target h, render_target h', length_showWord, length_showWord]

/-- **Rows of pieces with the same text agree piece by piece.** -/
theorem render_eq_of_join_eq (h : context.NoNames) (h' : context'.NoNames) {parts : List Piece}
    (hjoin : String.join (parts.map (render context)) =
      String.join (parts.map (render context'))) :
    ∀ piece ∈ parts, piece.render context = piece.render context' :=
  eq_of_join_eq (fun piece _ => Nat.le_of_eq (piece.length_render h h')) hjoin

/-- Whether the piece tells the operand byte with an index, of so many bytes. A branch target tells
    the last of them. -/
def reveals (count index : Nat) : Piece → Bool
  | text _ => false
  | byte shown => shown == index
  | word shown _ => (shown == index || shown + 1 == index) && decide (shown + 1 < count)
  | target => index + 1 == count

/-- What a piece reveals is the same wherever its text is. -/
theorem getElem?_eq_of_render_eq {piece : Piece} {index : Nat}
    (h : context.NoNames) (h' : context'.NoNames)
    (hlength : context'.bytes.length = context.bytes.length)
    (hreveals : piece.reveals context.bytes.length index = true)
    {address : Address} {length : Nat}
    (hbranch : piece = target →
      context.Branches address length ∧ context'.Branches address length)
    (hrender : piece.render context = piece.render context') :
    context.bytes[index]? = context'.bytes[index]? := by
  cases piece with
  | text shown => cases hreveals
  | byte shown =>
    have hindex : shown = index := by simpa [reveals] using hreveals
    rw [← hindex]
    exact showByte_injective hrender
  | word shown order =>
    have hindex : (shown = index ∨ shown + 1 = index) ∧ shown + 1 < context.bytes.length := by
      simpa [reveals] using hreveals
    obtain ⟨hindex, hlt⟩ := hindex
    have hlt' : shown + 1 < context'.bytes.length := hlength ▸ hlt
    have hword := showWord_injective hrender
    rw [wordAt?_eq_some hlt, wordAt?_eq_some hlt'] at hword
    obtain ⟨hfirst, hsecond⟩ := ByteOrder.word_injective (Option.some.inj hword)
    rcases hindex with rfl | rfl
    · rw [List.getElem?_eq_getElem (Nat.lt_of_succ_lt hlt),
        List.getElem?_eq_getElem (Nat.lt_of_succ_lt hlt'), hfirst]
    · rw [List.getElem?_eq_getElem hlt, List.getElem?_eq_getElem hlt', hsecond]
  | target =>
    have hlast : index + 1 = context.bytes.length := by simpa [reveals] using hreveals
    have hlast' : index + 1 = context'.bytes.length := hlast.trans hlength.symm
    obtain ⟨htarget, htarget'⟩ := hbranch rfl
    rw [render_target h, render_target h'] at hrender
    have hword := showWord_injective hrender
    rw [target8?_of_branches htarget hlast, target8?_of_branches htarget' hlast'] at hword
    have hbyte := Address.relative8_injective (Option.some.inj hword)
    rw [List.getElem?_eq_getElem (by omega), List.getElem?_eq_getElem (by omega), hbyte]

end Piece

/-! ## 4. Formats -/

namespace OperandFormat

/-- The format as a row of pieces, if it is one. -/
def parts? : OperandFormat → Option (List Piece)
  | implied => some []
  | fixed shown => some [.text shown]
  | byte affix => some [.text affix.before, .byte 0, .text affix.after]
  | word order affix _ => some [.text affix.before, .word 0 order, .text affix.after]
  | relative8 affix => some [.text affix.before, .target, .text affix.after]
  | pieces parts => some parts
  | relative16 .. | registerPair _ => none

variable {format : OperandFormat} {parts : List Piece} {context context' : OperandContext}

theorem join_wrap (affix : Affix) (value : String) :
    affix.wrap value = String.join [affix.before, value, affix.after] := by
  apply String.toList_injective
  simp [Affix.wrap]

/-- **An operand is its pieces**, one after another. -/
theorem render_eq_join (hparts : format.parts? = some parts) (h : context.NoNames) :
    format.render context = String.join (parts.map (Piece.render context)) := by
  cases format with
  | implied =>
    cases hparts
    rfl
  | fixed shown =>
    cases hparts
    exact (String.empty_append).symm
  | byte affix =>
    cases hparts
    rw [render, List.head?_eq_getElem?]
    exact join_wrap affix _
  | word order affix label =>
    cases hparts
    have hvalue : (if label then showAddress context.labels (wordAt? context.bytes 0 order)
        else showWord (wordAt? context.bytes 0 order)) =
        showWord (wordAt? context.bytes 0 order) := by
      cases label with
      | true => exact showAddress_of_no_names h _
      | false => rfl
    show affix.wrap (if label then _ else _) = _
    rw [hvalue]
    exact join_wrap affix _
  | relative8 affix =>
    cases hparts
    exact join_wrap affix _
  | pieces parts =>
    cases hparts
    rfl
  | relative16 order affix => cases hparts
  | registerPair names => cases hparts

theorem isRelative_of_target_mem (hparts : format.parts? = some parts)
    (htarget : Piece.target ∈ parts) : format.isRelative = true := by
  cases format with
  | implied =>
    cases hparts
    cases htarget
  | fixed shown =>
    cases hparts
    simp at htarget
  | byte affix =>
    cases hparts
    simp at htarget
  | word order affix label =>
    cases hparts
    simp at htarget
  | relative8 affix => rfl
  | pieces parts =>
    cases hparts
    exact List.contains_iff_mem.mpr htarget
  | relative16 order affix => rfl
  | registerPair names => cases hparts

/-- The text of an operand of the format tells all of its bytes. -/
def Telling (format : OperandFormat) : Prop :=
  ∃ parts ∈ format.parts?, ∀ index < format.size, ∃ piece ∈ parts,
    piece.reveals format.size index = true

instance (format : OperandFormat) : Decidable format.Telling :=
  inferInstanceAs (Decidable (∃ parts ∈ format.parts?, ∀ index < format.size, ∃ piece ∈ parts,
    piece.reveals format.size index = true))

/-- **Operands of a telling format with the same text have the same bytes**, read at the same
    address. -/
theorem bytes_eq_of_render_eq (htelling : format.Telling) (h : context.NoNames)
    (h' : context'.NoNames) (hlength : context.bytes.length = format.size)
    (hlength' : context'.bytes.length = format.size) {address : Address} {length : Nat}
    (hbranch : format.isRelative = true →
      context.Branches address length ∧ context'.Branches address length)
    (hrender : format.render context = format.render context') :
    context.bytes = context'.bytes := by
  obtain ⟨parts, hparts, hreveals⟩ := htelling
  rw [render_eq_join hparts h, render_eq_join hparts h'] at hrender
  have hpieces := Piece.render_eq_of_join_eq h h' hrender
  apply List.ext_getElem?
  intro index
  by_cases hindex : index < format.size
  · obtain ⟨piece, hpiece, hreveal⟩ := hreveals index hindex
    rw [← hlength] at hreveal
    have htarget : piece = .target →
        context.Branches address length ∧ context'.Branches address length := by
      rintro rfl
      exact hbranch (isRelative_of_target_mem hparts hpiece)
    exact Piece.getElem?_eq_of_render_eq h h' (hlength'.trans hlength.symm) hreveal htarget
      (hpieces piece hpiece)
  · rw [List.getElem?_eq_none (by omega), List.getElem?_eq_none (by omega)]

end OperandFormat

/-! ## 5. Shapes -/

/-- The character, or a zero for every digit and for what stands in the place of one. -/
def mask (c : Char) : Char := if Hex.IsDigit c ∨ c = '?' then '0' else c

theorem map_mask_of_isDigit {digits : List Char} (h : ∀ c ∈ digits, Hex.IsDigit c) :
    digits.map mask = List.replicate digits.length '0' := by
  apply List.eq_replicate_iff.mpr
  refine ⟨List.length_map _, fun c hc => ?_⟩
  obtain ⟨digit, hdigit, rfl⟩ := List.mem_map.mp hc
  exact if_pos (Or.inl (h digit hdigit))

theorem map_mask_showByte (value : Option UInt8) :
    (showByte value).toList.map mask = ['$', '0', '0'] := by
  cases value with
  | none => rfl
  | some b =>
    have hdigits := map_mask_of_isDigit fun c (hc : c ∈ (Hex.byte b).toList) => Hex.mem_byte hc
    rw [Hex.length_byte] at hdigits
    rw [showByte, String.toList_append, List.map_append, hdigits]
    rfl

theorem map_mask_showWord (value : Option UInt16) :
    (showWord value).toList.map mask = ['$', '0', '0', '0', '0'] := by
  cases value with
  | none => rfl
  | some w =>
    have hdigits := map_mask_of_isDigit fun c (hc : c ∈ (Hex.word w).toList) => Hex.mem_word hc
    rw [Hex.length_word] at hdigits
    rw [showWord, String.toList_append, List.map_append, hdigits]
    rfl

/-- What the piece looks like, whatever the numbers are. -/
def Piece.shape : Piece → List Char
  | text shown => shown.toList.map mask
  | byte _ => ['$', '0', '0']
  | word .. | target => ['$', '0', '0', '0', '0']

theorem Piece.map_mask_render {context : OperandContext} (piece : Piece) (h : context.NoNames) :
    (piece.render context).toList.map mask = piece.shape := by
  cases piece with
  | text shown => rfl
  | byte index => exact map_mask_showByte _
  | word index order => exact map_mask_showWord _
  | target =>
    rw [render_target h]
    exact map_mask_showWord _

/-- What an operand of the format looks like, whatever the numbers are. -/
def OperandFormat.shape (format : OperandFormat) : List Char :=
  (format.parts?.getD []).flatMap Piece.shape

/-- **With all digits made the same, the text of an operand is a matter of its format.** -/
theorem OperandFormat.map_mask_render {format : OperandFormat} {context : OperandContext}
    (htelling : format.Telling) (h : context.NoNames) :
    (format.render context).toList.map mask = format.shape := by
  obtain ⟨parts, hparts, -⟩ := htelling
  rw [render_eq_join hparts h, String.toList_join, List.flatMap_map, List.map_flatMap, shape,
    show format.parts? = some parts from hparts]
  exact congrArg (fun text => parts.flatMap text) (funext fun piece => piece.map_mask_render h)

end Disassembly
