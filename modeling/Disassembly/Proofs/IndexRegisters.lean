import Disassembly.Proofs.AssemblerText
import Disassembly.Proofs.Continuation
import Disassembly.Proofs.FrontEnds

/-!
# Two index registers

The Z80 has two pages of instructions with an index register, one behind `$DD` and one behind `$FD`.
Row by row they are the same with the other register (`ZilogZ80.indexPage_iy`): the opcode is as far
from its page, the texts of the operand have `iy` for `ix`, and all else is equal. No other page has
an opcode that begins with one of the two bytes, so looking an opcode up in the one page answers as
looking its counterpart up in the other does (`ZilogZ80.visible?_cases`).

The texts of an operand change and its numbers do not, since no digit is an `i`. So, without labels,
what is decoded behind `$FD` is what is decoded from the same bytes behind `$DD`, in the other
register (`ZilogZ80.decode_index_pages`).
-/

namespace Disassembly

/-! ## 1. Texts -/

namespace ZilogZ80

/-- The characters of a text with `iy` for every `ix`. -/
def ixToIy : List Char → List Char
  | [] => []
  | 'i' :: 'x' :: rest => 'i' :: 'y' :: ixToIy rest
  | c :: rest => c :: ixToIy rest

/-- The text with `iy` for every `ix`. -/
def inIy (text : String) : String := String.ofList (ixToIy text.toList)

/-- No name of a register is begun at the end of the text. -/
def Ended (text : String) : Prop := text.toList.getLast? ≠ some 'i'

instance (text : String) : Decidable (Ended text) :=
  inferInstanceAs (Decidable (_ ≠ _))

theorem ixToIy_cons {c : Char} {rest : List Char}
    (h : ∀ others, c = 'i' → rest = 'x' :: others → False) :
    ixToIy (c :: rest) = c :: ixToIy rest := by
  rw [ixToIy]
  exact h

/-- What stands behind a text changes nothing in it, unless the text ends within a name. -/
theorem ixToIy_append {text : List Char} (h : text.getLast? ≠ some 'i') (other : List Char) :
    ixToIy (text ++ other) = ixToIy text ++ ixToIy other := by
  fun_induction ixToIy text with
  | case1 => rfl
  | case2 rest ih =>
    have hrest : rest.getLast? ≠ some 'i' := by
      cases rest with
      | nil => exact nofun
      | cons c rest => exact h
    show 'i' :: 'y' :: ixToIy (rest ++ other) = 'i' :: 'y' :: (ixToIy rest ++ ixToIy other)
    rw [ih hrest]
  | case3 c rest hname ih =>
    cases rest with
    | nil =>
      have hc : c ≠ 'i' := fun heq => h (congrArg some heq)
      exact ixToIy_cons fun _ heq _ => hc heq
    | cons next rest =>
      rw [List.cons_append, ixToIy_cons, ih h, List.cons_append]
      rintro others rfl heq
      obtain ⟨rfl, -⟩ := List.cons.inj heq
      exact hname rest rfl rfl

theorem ixToIy_of_not_mem {text : List Char} (h : 'i' ∉ text) : ixToIy text = text := by
  induction text with
  | nil => rfl
  | cons c rest ih =>
    rw [ixToIy_cons fun _ heq _ => h (heq ▸ List.mem_cons_self),
      ih fun hmem => h (List.mem_cons_of_mem c hmem)]

theorem inIy_append {text : String} (h : Ended text) (other : String) :
    inIy (text ++ other) = inIy text ++ inIy other := by
  rw [inIy, String.toList_append, ixToIy_append h, String.ofList_append]
  rfl

theorem inIy_of_not_mem {text : String} (h : 'i' ∉ text.toList) : inIy text = text := by
  rw [inIy, ixToIy_of_not_mem h, String.ofList_toList]

theorem ended_of_not_mem {text : String} (h : 'i' ∉ text.toList) : Ended text :=
  fun hlast => h (List.mem_of_getLast? hlast)

theorem inIy_join {texts : List String} (h : ∀ text ∈ texts, Ended text) :
    inIy (String.join texts) = String.join (texts.map inIy) := by
  induction texts with
  | nil => rfl
  | cons text texts ih =>
    rw [String.join_cons, inIy_append (h text List.mem_cons_self),
      ih fun other hother => h other (List.mem_cons_of_mem text hother), List.map_cons,
      String.join_cons]

end ZilogZ80

/-! ## 2. Operands -/

section Operands

open ZilogZ80 (inIy Ended inIy_append inIy_join inIy_of_not_mem ended_of_not_mem)

/-- With all digits made the same, no letter of a register remains. -/
theorem i_not_mem_showByte (value : Option UInt8) : 'i' ∉ (showByte value).toList := by
  intro hmem
  have hmask : mask 'i' ∈ (showByte value).toList.map mask := List.mem_map_of_mem hmem
  rw [map_mask_showByte] at hmask
  exact absurd hmask (by decide)

theorem i_not_mem_showWord (value : Option UInt16) : 'i' ∉ (showWord value).toList := by
  intro hmem
  have hmask : mask 'i' ∈ (showWord value).toList.map mask := List.mem_map_of_mem hmem
  rw [map_mask_showWord] at hmask
  exact absurd hmask (by decide)

/-- The affix with other texts. -/
def Affix.mapTexts (f : String → String) (affix : Affix) : Affix :=
  ⟨f affix.before, f affix.after⟩

/-- The piece with another text. -/
def Piece.mapText (f : String → String) : Piece → Piece
  | text shown => text (f shown)
  | piece => piece

/-- The format with other texts around the same numbers. -/
def OperandFormat.mapTexts (f : String → String) : OperandFormat → OperandFormat
  | implied => implied
  | fixed shown => fixed (f shown)
  | byte affix => byte (affix.mapTexts f)
  | word order affix label => word order (affix.mapTexts f) label
  | relative8 affix => relative8 (affix.mapTexts f)
  | relative16 order affix => relative16 order (affix.mapTexts f)
  | registerPair names => registerPair (names.map f)
  | pieces parts => pieces (parts.map (Piece.mapText f))

theorem Affix.wrap_mapTexts {affix : Affix} {value : String}
    (htexts : ∀ text ∈ affix.texts, Ended text) (hvalue : 'i' ∉ value.toList) :
    (affix.mapTexts inIy).wrap value = inIy (affix.wrap value) := by
  have hbefore := htexts affix.before List.mem_cons_self
  rw [wrap, wrap, String.append_assoc, String.append_assoc, inIy_append hbefore,
    inIy_append (ended_of_not_mem hvalue), inIy_of_not_mem hvalue]
  rfl

variable {context : OperandContext}

theorem Piece.render_mapText (piece : Piece) (hnames : context.NoNames) :
    (piece.mapText inIy).render context = inIy (piece.render context) := by
  cases piece with
  | text shown => rfl
  | byte index => exact (inIy_of_not_mem (i_not_mem_showByte _)).symm
  | word index order => exact (inIy_of_not_mem (i_not_mem_showWord _)).symm
  | target =>
    show Piece.target.render context = _
    rw [render_target hnames]
    exact (inIy_of_not_mem (i_not_mem_showWord _)).symm

theorem Piece.ended_render {piece : Piece} (htexts : ∀ text ∈ piece.texts, Ended text)
    (hnames : context.NoNames) : Ended (piece.render context) := by
  cases piece with
  | text shown => exact htexts shown List.mem_cons_self
  | byte index => exact ended_of_not_mem (i_not_mem_showByte _)
  | word index order => exact ended_of_not_mem (i_not_mem_showWord _)
  | target =>
    rw [render_target hnames]
    exact ended_of_not_mem (i_not_mem_showWord _)

/-- **An operand in other texts is the operand with the texts changed.** -/
theorem OperandFormat.render_mapTexts {format : OperandFormat}
    (htexts : ∀ text ∈ format.texts, Ended text) (hnames : context.NoNames) :
    (format.mapTexts inIy).render context = inIy (format.render context) := by
  have haddress : ∀ address, 'i' ∉ (showAddress context.labels address).toList := by
    intro address
    rw [showAddress_of_no_names hnames]
    exact i_not_mem_showWord address
  cases format with
  | implied => rfl
  | fixed shown => rfl
  | byte affix => exact Affix.wrap_mapTexts htexts (i_not_mem_showByte _)
  | word order affix label =>
    refine Affix.wrap_mapTexts htexts ?_
    split
    · exact haddress _
    · exact i_not_mem_showWord _
  | relative8 affix => exact Affix.wrap_mapTexts htexts (haddress _)
  | relative16 order affix => exact Affix.wrap_mapTexts htexts (haddress _)
  | registerPair names =>
    have hname : ∀ index : Fin 16, Ended (names.get index) := fun index =>
      htexts _ (Vector.mem_toList_iff.mpr (Vector.getElem_mem index.isLt))
    have hmap : ∀ index : Fin 16, (names.map inIy).get index = inIy (names.get index) :=
      fun index => Vector.getElem_map inIy index.isLt
    simp only [mapTexts, render]
    cases context.bytes.head? with
    | none => exact (inIy_of_not_mem (by decide : 'i' ∉ "??,??".toList)).symm
    | some b =>
      dsimp only
      rw [String.append_assoc, String.append_assoc, inIy_append (hname _), inIy_append (by decide),
        hmap, hmap]
      rfl
  | pieces parts =>
    have hpieces : ∀ piece ∈ parts, ∀ text ∈ piece.texts, Ended text :=
      fun piece hpiece text htext => htexts text (List.mem_flatMap.mpr ⟨piece, hpiece, htext⟩)
    have hended : ∀ text ∈ parts.map (Piece.render context), Ended text := by
      intro text htext
      obtain ⟨piece, hpiece, rfl⟩ := List.mem_map.mp htext
      exact Piece.ended_render (hpieces piece hpiece) hnames
    show String.join ((parts.map (Piece.mapText inIy)).map _) = inIy (String.join (parts.map _))
    rw [inIy_join hended, List.map_map, List.map_map]
    exact congrArg String.join (List.map_congr_left fun piece _ => piece.render_mapText hnames)

end Operands

/-! ## 3. Pages -/

namespace ZilogZ80

/-- The rows for the register `ix`. -/
def ixPage : List Row := indexPage 0xDD "ix"

/-- The rows of the pages that no index register has. -/
def plainPages : List Row := firstPage ++ bitPage ++ mixedPage

/-- The opcode that is as far behind `$FD` as this one is behind `$DD`. -/
def shifted (opcode : Nat) : Nat := opcode + (if opcode < 0x10000 then 0x2000 else 0x200000)

/-- The row with the register `iy` for `ix`. -/
def counterpart (row : Row) : Row :=
  { row with
    opcode := shifted row.opcode
    mode := ⟨inIy row.mode.key, row.mode.format.mapTexts inIy⟩ }

/-- **The page of the one register is that of the other**, row by row. -/
theorem indexPage_iy : indexPage 0xFD "iy" = ixPage.map counterpart := by decide +kernel

/-- The first byte of an opcode of two or three bytes. -/
def lead (opcode : Nat) : Nat := if opcode < 0x10000 then opcode / 0x100 else opcode / 0x10000

theorem lead_plainPages : ∀ row ∈ plainPages, lead row.opcode ≠ 0xDD ∧ lead row.opcode ≠ 0xFD := by
  decide +kernel

theorem lead_ixPage : ∀ row ∈ ixPage, lead row.opcode = 0xDD := by decide +kernel

variable {key : Nat} {row : Row}

theorem mem_pages (hrow : row ∈ ixPage) : row ∈ pages.flatten := by
  have hpage : ixPage ∈ pages := by simp [pages, ixPage]
  exact List.mem_flatten.mpr ⟨ixPage, hpage, hrow⟩

theorem shifted_injective : Function.Injective shifted := by
  intro opcode other h
  unfold shifted at h
  split at h <;> split at h <;> omega

theorem lead_shifted (h : lead key = 0xDD) : lead (shifted key) = 0xFD := by
  unfold lead at h
  split at h
  · rename_i hshort
    rw [shifted, if_pos hshort, lead, if_pos (by omega)]
    omega
  · rename_i hlong
    rw [shifted, if_neg hlong, lead, if_neg (by omega)]
    omega

/-- The row of an opcode. -/
def row? (key : Nat) : Option Row := pages.flatten.reverse.find? (·.opcode = key)

theorem entry?_eq (key : Nat) : processor.entry? key = (row? key).map Row.entry := by
  have hlayers : processor.layers.flatten = pages.flatten.map Row.entry := List.map_flatten.symm
  rw [Processor.entry?, hlayers, ← List.map_reverse, List.find?_map]
  rfl

/-- A row is looked for page by page, in the last one first. -/
theorem row?_eq (key : Nat) : row? key =
    (((ixPage.map counterpart).reverse.find? (·.opcode = key)).or
      (ixPage.reverse.find? (·.opcode = key))).or (plainPages.reverse.find? (·.opcode = key)) := by
  have hpages : pages.flatten = plainPages ++ (ixPage ++ ixPage.map counterpart) := by
    rw [← indexPage_iy]
    simp only [pages, plainPages, ixPage, List.flatten_cons, List.flatten_nil, List.append_nil,
      List.append_assoc]
  rw [row?, hpages, List.reverse_append, List.reverse_append, List.find?_append, List.find?_append]

/-- A page has no row of an opcode that begins with another byte. -/
theorem find?_of_lead_ne {rows : List Row} (h : ∀ row ∈ rows, lead row.opcode ≠ lead key) :
    rows.reverse.find? (·.opcode = key) = none := by
  refine List.find?_eq_none.mpr fun row hrow hkey => ?_
  exact h row (List.mem_reverse.mp hrow) (congrArg lead (of_decide_eq_true hkey))

theorem row?_of_ix (h : lead key = 0xDD) :
    row? key = ixPage.reverse.find? (·.opcode = key) := by
  have hplain : plainPages.reverse.find? (·.opcode = key) = none :=
    find?_of_lead_ne fun row hrow => h ▸ (lead_plainPages row hrow).1
  have hiy : (ixPage.map counterpart).reverse.find? (·.opcode = key) = none := by
    refine find?_of_lead_ne fun row hrow => ?_
    obtain ⟨other, hother, rfl⟩ := List.mem_map.mp hrow
    have hlead : lead (counterpart other).opcode = 0xFD := lead_shifted (lead_ixPage other hother)
    rw [hlead, h]
    decide
  rw [row?_eq, hplain, hiy, Option.none_or, Option.or_none]

/-- **The row of an opcode behind `$FD` is the counterpart of that behind `$DD`.** -/
theorem row?_shifted (h : lead key = 0xDD) : row? (shifted key) = (row? key).map counterpart := by
  have hlead := lead_shifted h
  have hplain : plainPages.reverse.find? (·.opcode = shifted key) = none :=
    find?_of_lead_ne fun row hrow => hlead ▸ (lead_plainPages row hrow).2
  have hix : ixPage.reverse.find? (·.opcode = shifted key) = none := by
    refine find?_of_lead_ne fun row hrow => ?_
    rw [lead_ixPage row hrow, hlead]
    decide
  have hiy : (ixPage.map counterpart).reverse.find? (·.opcode = shifted key) =
      (ixPage.reverse.find? (·.opcode = key)).map counterpart := by
    rw [← List.map_reverse, List.find?_map]
    refine congrArg (fun p => (ixPage.reverse.find? p).map counterpart) (funext fun row => ?_)
    exact decide_eq_decide.mpr shifted_injective.eq_iff
  rw [row?_of_ix h, row?_eq, hplain, hix, Option.or_none, Option.or_none, hiy]

theorem mem_of_row? (h : lead key = 0xDD) (hrow : row? key = some row) :
    row ∈ ixPage ∧ row.opcode = key := by
  rw [row?_of_ix h] at hrow
  have hkey := List.find?_some hrow
  exact ⟨List.mem_reverse.mp (List.mem_of_find?_eq_some hrow), of_decide_eq_true hkey⟩

/-! ## 4. Instructions -/

/-- The mode that is found by the key of a row is that of the row. -/
theorem format_of_key : ∀ row ∈ ixPage ++ indexPage 0xFD "iy",
    (processor.modes.reverse.find? (·.key = row.mode.key)).map (·.format) =
      some row.mode.format := by
  decide +kernel

theorem entry_counterpart : ∀ row ∈ ixPage, (counterpart row).entry.length = row.entry.length ∧
    (counterpart row).entry.flags = row.entry.flags := by
  decide +kernel

/-- No instruction with an index register is a branch. -/
theorem isRelative_ixPage : ∀ row ∈ ixPage, row.entry.flags.pcRelative = false := by
  decide +kernel

theorem ended_ixPage : ∀ row ∈ ixPage, ∀ text ∈ row.mode.format.texts, Ended text := by
  decide +kernel

/-- Only what goes on behind its operand has no name of its own. -/
theorem named_ixPage : ∀ row ∈ ixPage, row.mnemonic = invalidMnemonic →
    row.entry.flags.extended = true ∧ row.opcode < 0x10000 := by
  decide +kernel

section Decoders

variable {decoder : Decoder} (hset : decoder.instructions = processor.instructionSet)
include hset

/-- **An opcode behind `$DD` and its counterpart mean something together or not at all.** -/
theorem visible?_cases (h : lead key = 0xDD) :
    (decoder.visible? key = none ∧ decoder.visible? (shifted key) = none) ∨
    ∃ row ∈ ixPage, row.opcode = key ∧ decoder.visible? key = some row.entry.toDescriptor ∧
      decoder.visible? (shifted key) = some (counterpart row).entry.toDescriptor := by
  have hget : ∀ opcode, decoder.instructions.table.get? opcode =
      (row? opcode).map fun row => row.entry.toDescriptor := by
    intro opcode
    rw [Decoder.get?_of_processor hset, entry?_eq, Option.map_map]
    rfl
  unfold Decoder.visible?
  rw [hget, hget, row?_shifted h]
  cases hrow : row? key with
  | none => exact Or.inl ⟨rfl, rfl⟩
  | some row =>
    obtain ⟨hmem, hkey⟩ := mem_of_row? h hrow
    obtain ⟨-, hflags⟩ := entry_counterpart row hmem
    by_cases hshown : (decoder.undocumented || !row.entry.flags.undocumented) = true
    · refine Or.inr ⟨row, hmem, hkey, Option.filter_eq_some_iff.mpr ⟨rfl, hshown⟩,
        Option.filter_eq_some_iff.mpr ⟨rfl, ?_⟩⟩
      rw [hflags]
      exact hshown
    · refine Or.inl ⟨Option.filter_eq_none_iff.mpr ?_, Option.filter_eq_none_iff.mpr ?_⟩
      · rintro _ ⟨⟩
        exact hshown
      · rintro _ ⟨⟩
        rw [hflags]
        exact hshown

theorem format?_of_mem (hrow : row ∈ ixPage) :
    decoder.format? row.entry.toDescriptor = some row.mode.format ∧
      decoder.format? (counterpart row).entry.toDescriptor =
        some (row.mode.format.mapTexts inIy) := by
  have hiy : counterpart row ∈ indexPage 0xFD "iy" := by
    rw [indexPage_iy]
    exact List.mem_map_of_mem hrow
  rw [Decoder.format?_of_processor hset, Decoder.format?_of_processor hset]
  exact ⟨format_of_key row (List.mem_append_left _ hrow),
    format_of_key _ (List.mem_append_right _ hiy)⟩

end Decoders

/-! ## 5. Units -/

/-- `Alike showInvalid body other`: what two units say that differ in the index register alone. Both
    are instructions that mean something, with the same mnemonic, or both mean nothing. These are
    shown as such, or else as the bytes they have, of which the first is the lead-in byte. -/
inductive Alike (showInvalid : Bool) : Body → Body → Prop
  | instruction {mnemonic operand : String} (h : mnemonic ≠ invalidMnemonic) :
      Alike showInvalid (.instruction mnemonic operand) (.instruction mnemonic (inIy operand))
  | data (h : showInvalid = false) (others : String) :
      Alike showInvalid (.directive ".byte" ("$DD" ++ others))
        (.directive ".byte" ("$FD" ++ others))
  | unknown (h : showInvalid = true) :
      Alike showInvalid (.instruction invalidMnemonic "") (.instruction invalidMnemonic "")

/-- What is alike to an instruction with a name is this instruction in the other register. -/
theorem Alike.eq_of_named {showInvalid : Bool} {mnemonic operand : String} {body : Body}
    (h : Alike showInvalid (.instruction mnemonic operand) body)
    (hnamed : mnemonic ≠ invalidMnemonic) : body = .instruction mnemonic (inIy operand) := by
  cases h with
  | instruction _ => rfl
  | unknown _ => exact absurd rfl hnamed

/-- The readings are units of the same bytes behind the two lead-in bytes, and what they say is
    alike. -/
def ReadAlike (decoder : Decoder) (address : Address) (more : List UInt8)
    (reading other : Reading) : Prop :=
  ∃ body body', reading = .line ⟨address, 0xDD :: more, body⟩ ∧
    other = .line ⟨address, 0xFD :: more, body'⟩ ∧ Alike decoder.showInvalid body body'

variable {decoder : Decoder}

/-- Behind a first byte that is not printable the others are shown in the same way. -/
theorem exists_showData (more : List UInt8) : ∃ others, ∀ b, Text.isPrintable b = false →
    Decoder.showData (b :: more) = showByte (some b) ++ others := by
  cases more with
  | nil =>
    refine ⟨"", fun b hb => ?_⟩
    rw [Decoder.showData_of_not_printable hb, String.append_empty]
  | cons next rest =>
    refine ⟨"," ++ ",".intercalate ((next :: rest).map fun b => showByte (some b)), fun b _ => ?_⟩
    rw [← String.append_assoc]
    exact String.intercalate_cons_cons

theorem readAlike_invalid (decoder : Decoder) (address : Address) (more : List UInt8) :
    ReadAlike decoder address more (.line (decoder.invalid address (0xDD :: more)))
      (.line (decoder.invalid address (0xFD :: more))) := by
  refine ⟨_, _, rfl, rfl, ?_⟩
  cases hshown : decoder.showInvalid with
  | false =>
    obtain ⟨others, hothers⟩ := exists_showData more
    rw [if_pos ⟨rfl, rfl⟩, if_pos ⟨rfl, rfl⟩, hothers 0xDD (by decide), hothers 0xFD (by decide)]
    exact .data rfl others
  | true =>
    have hkept : ¬ (invalidMnemonic = invalidMnemonic ∧ true = false) := fun h => nomatch h.2
    rw [if_neg hkept, if_neg hkept]
    exact .unknown rfl

/-- An instruction that has a name and is no branch shows its operand bytes wherever it stands. -/
theorem instruction_of_steady (hlabels : decoder.labels = .empty) {descriptor : Descriptor}
    (hnamed : descriptor.mnemonic ≠ invalidMnemonic) (hsteady : descriptor.flags.pcRelative = false)
    (format : OperandFormat) (address : Address) (bytes operands : List UInt8) :
    decoder.instruction address bytes descriptor format operands =
      ⟨address, bytes, .instruction descriptor.mnemonic (format.render { bytes := operands })⟩ := by
  rw [Decoder.instruction_of_named hnamed, hsteady, hlabels, if_neg Bool.false_ne_true]

/-- **The operands of a row and its counterpart are the same in the other register.** -/
theorem readAlike_instruction (hlabels : decoder.labels = .empty) (hrow : row ∈ ixPage)
    (hnamed : row.mnemonic ≠ invalidMnemonic) (address : Address) (more operands : List UInt8) :
    ReadAlike decoder address more
      (.line (decoder.instruction address (0xDD :: more) row.entry.toDescriptor row.mode.format
        operands))
      (.line (decoder.instruction address (0xFD :: more) (counterpart row).entry.toDescriptor
        (row.mode.format.mapTexts inIy) operands)) := by
  have hsteady : row.entry.flags.pcRelative = false := isRelative_ixPage row hrow
  have hsteady' : (counterpart row).entry.flags.pcRelative = false := by
    rw [(entry_counterpart row hrow).2]
    exact hsteady
  have hnamed' : (counterpart row).entry.mnemonic ≠ invalidMnemonic := hnamed
  have hnames : ({ bytes := operands } : OperandContext).NoNames := LabelTable.nameAt?_empty
  rw [instruction_of_steady hlabels hnamed hsteady, instruction_of_steady hlabels hnamed' hsteady',
    OperandFormat.render_mapTexts (ended_ixPage row hrow) hnames]
  exact ⟨_, _, rfl, rfl, .instruction hnamed⟩

theorem ofBytes_pair (second : UInt8) : Opcode.ofBytes [0xDD, second] = 0xDD00 + second.toNat ∧
    Opcode.ofBytes [0xFD, second] = 0xFD00 + second.toNat := by
  simp [Opcode.ofBytes]

/-- The byte behind `$FD` makes the opcode that is shifted from the one behind `$DD`. -/
theorem ofBytes_led (second : UInt8) : lead (Opcode.ofBytes [0xDD, second]) = 0xDD ∧
    Opcode.ofBytes [0xFD, second] = shifted (Opcode.ofBytes [0xDD, second]) := by
  have hsecond := second.toNat_lt
  obtain ⟨hix, hiy⟩ := ofBytes_pair second
  rw [hix, hiy, lead, shifted, if_pos (by omega), if_pos (by omega)]
  omega

/-- The same with the byte in which an opcode ends behind its operand. -/
theorem ofBytes_led_concat (second last : UInt8) :
    0x10000 ≤ Opcode.ofBytes ([0xDD, second] ++ [last]) ∧
    lead (Opcode.ofBytes ([0xDD, second] ++ [last])) = 0xDD ∧
    Opcode.ofBytes ([0xFD, second] ++ [last]) =
      shifted (Opcode.ofBytes ([0xDD, second] ++ [last])) := by
  have hsecond := second.toNat_lt
  have hlast := last.toNat_lt
  obtain ⟨hix, hiy⟩ := ofBytes_pair second
  rw [Opcode.ofBytes_concat, Opcode.ofBytes_concat, hix, hiy, lead, shifted, if_neg (by omega),
    if_neg (by omega)]
  omega

section Known

variable (hset : decoder.instructions = processor.instructionSet)
  (hlabels : decoder.labels = .empty)
include hset hlabels

theorem readAlike_completeExtended (address : Address) (second : UInt8) (operands : List UInt8) :
    ReadAlike decoder address (second :: operands)
      (decoder.completeExtended address [0xDD, second] operands)
      (decoder.completeExtended address [0xFD, second] operands) := by
  unfold Decoder.completeExtended
  cases operands.getLast? with
  | none => exact readAlike_invalid decoder address _
  | some last =>
    obtain ⟨hlong, hlead, hshifted⟩ := ofBytes_led_concat second last
    dsimp only
    rw [hshifted]
    rcases visible?_cases hset hlead with ⟨hnone, hnone'⟩ | ⟨row, hrow, hkey, hsome, hsome'⟩
    · rw [hnone, hnone']
      exact readAlike_invalid decoder address _
    · obtain ⟨hformat, hformat'⟩ := format?_of_mem hset hrow
      have hnamed : row.mnemonic ≠ invalidMnemonic := by
        intro hinvalid
        obtain ⟨-, hshort⟩ := named_ixPage row hrow hinvalid
        omega
      rw [hsome, hsome']
      dsimp only
      rw [hformat, hformat']
      exact readAlike_instruction hlabels hrow hnamed address _ _

theorem readAlike_complete (hrow : row ∈ ixPage) (address : Address) (second : UInt8)
    (operands : List UInt8) :
    ReadAlike decoder address (second :: operands)
      (decoder.complete address [0xDD, second] operands row.entry.toDescriptor row.mode.format)
      (decoder.complete address [0xFD, second] operands (counterpart row).entry.toDescriptor
        (row.mode.format.mapTexts inIy)) := by
  have hflags := (entry_counterpart row hrow).2
  unfold Decoder.complete
  by_cases hextended : row.entry.flags.extended = true
  · rw [if_pos hextended, if_pos (hflags ▸ hextended)]
    exact readAlike_completeExtended hset hlabels address second operands
  · have hnamed : row.mnemonic ≠ invalidMnemonic :=
      fun hinvalid => hextended (named_ixPage row hrow hinvalid).1
    rw [if_neg hextended, if_neg (hflags ▸ hextended)]
    exact readAlike_instruction hlabels hrow hnamed address _ operands

/-- **The same bytes behind the two lead-in bytes settle units that are alike, or nothing.** Three
    of them are always enough, as no instruction is longer than four bytes. -/
theorem scan?_cases (address : Address) (bytes : List UInt8) :
    (bytes.length < 3 ∧ decoder.scan? address (0xDD :: bytes) = none ∧
      decoder.scan? address (0xFD :: bytes) = none) ∨
    ∃ more reading other,
      decoder.scan? address (0xDD :: bytes) = some { reading, taken := 0xDD :: more } ∧
      decoder.scan? address (0xFD :: bytes) = some { reading := other, taken := 0xFD :: more } ∧
      ReadAlike decoder address more reading other := by
  have hleadIns : decoder.instructions.leadIns = [0xCB, 0xDD, 0xED, 0xFD] := by
    rw [hset]
    rfl
  unfold Decoder.scan?
  dsimp only
  rw [hleadIns, if_pos (by decide), if_pos (by decide)]
  cases bytes with
  | nil => exact Or.inl ⟨Nat.zero_lt_succ 2, rfl, rfl⟩
  | cons second bytes =>
    obtain ⟨hlead, hshifted⟩ := ofBytes_led second
    dsimp only [Decoder.scanFrom?]
    rw [hshifted]
    rcases visible?_cases hset hlead with ⟨hnone, hnone'⟩ | ⟨row, hrow, -, hsome, hsome'⟩
    · rw [hnone, hnone']
      exact Or.inr ⟨[second], _, _, rfl, rfl, readAlike_invalid decoder address [second]⟩
    · obtain ⟨hformat, hformat'⟩ := format?_of_mem hset hrow
      have hlength := (entry_counterpart row hrow).1
      rw [hsome, hsome']
      dsimp only
      rw [hformat, hformat', hlength]
      dsimp only [List.length_cons, List.length_nil]
      split
      · exact Or.inr ⟨_, _, _, rfl, rfl, readAlike_complete hset hlabels hrow address second _⟩
      · have hle := entry_length_le row (mem_pages hrow)
        exact Or.inl ⟨by omega, rfl, rfl⟩

end Known

/-! ## 6. Decoding -/

theorem forName_z80 (options : Options) :
    Disassembler.forName "z80" options = .ok (.ofProcessor processor options) := by
  have hmem : processor ∈ Registry.processors := by simp [Registry.processors]
  exact Registry.forName_of_mem hmem rfl options

/-- **The two index registers are treated alike.** Let the same bytes stand behind `$DD` and behind
    `$FD`, and let the Z80 decode both at one address, under any options and without labels. Either
    these bytes are fewer than three and the data ends inside both instructions, or both are units,
    and the same bytes are taken behind the lead-in bytes. Then both are instructions with the same
    mnemonic, and the operand of the second is that of the first with `iy` for every `ix`; or both
    mean nothing, and they are shown as such or as bytes that differ in the first one only. -/
theorem decode_index_pages {options : Options} {d : Disassembler}
    (hd : Disassembler.forName "z80" options = .ok d) (address : Address) (bytes : List UInt8)
    {ix iy : Source} (hix : ix.Holds (0xDD :: bytes)) (hiy : iy.Holds (0xFD :: bytes)) :
    (bytes.length < 3 ∧ d.toDecoder.decode address ix = (.truncated none, ix.spent) ∧
      d.toDecoder.decode address iy = (.truncated none, iy.spent)) ∨
    ∃ more body body' rest rest',
      d.toDecoder.decode address ix = (.line ⟨address, 0xDD :: more, body⟩, rest) ∧
      d.toDecoder.decode address iy = (.line ⟨address, 0xFD :: more, body'⟩, rest') ∧
      ix.Yields (0xDD :: more) rest ∧ iy.Yields (0xFD :: more) rest' ∧
      Alike options.showInvalid body body' := by
  obtain rfl := Except.ok.inj ((forName_z80 options).symm.trans hd)
  have hset : (Disassembler.ofProcessor processor options).toDecoder.instructions =
      processor.instructionSet := rfl
  obtain ⟨hahead, hfault⟩ := hix
  obtain ⟨hahead', hfault'⟩ := hiy
  rcases scan?_cases hset rfl address bytes with
    ⟨hshort, hnone, hnone'⟩ | ⟨more, _, _, hscan, hscan', body, body', rfl, rfl, halike⟩
  · rw [← hahead] at hnone
    rw [← hahead'] at hnone'
    have hended := (Decoder.decode_of_none hnone).ended hfault
    have hended' := (Decoder.decode_of_none hnone').ended hfault'
    rw [hahead, if_neg (List.cons_ne_nil _ _)] at hended
    rw [hahead', if_neg (List.cons_ne_nil _ _)] at hended'
    exact Or.inl ⟨hshort, hended, hended'⟩
  · rw [← hahead] at hscan
    rw [← hahead'] at hscan'
    obtain ⟨rest, hdecode, hyields⟩ := Decoder.decode_of_scan hscan
    obtain ⟨rest', hdecode', hyields'⟩ := Decoder.decode_of_scan hscan'
    exact Or.inr ⟨more, body, body', rest, rest', hdecode, hdecode', hyields, hyields', halike⟩

/-- An undocumented shift, whose opcode ends behind the displacement, and a byte behind it. -/
theorem decode_index_pages_shift :
    let options : Options := { undocumented := true }
    let d : Disassembler := .ofProcessor processor options
    let ix : Source := .ofBytes [0xDD, 0xCB, 0x05, 0x36, 0xC9]
    let iy : Source := .ofBytes [0xFD, 0xCB, 0x05, 0x36, 0xC9]
    Disassembler.forName "z80" options = .ok d ∧
    ix.Holds [0xDD, 0xCB, 0x05, 0x36, 0xC9] ∧ iy.Holds [0xFD, 0xCB, 0x05, 0x36, 0xC9] ∧
    (∃ rest, d.toDecoder.decode 0x1000 ix =
      (.line ⟨0x1000, [0xDD, 0xCB, 0x05, 0x36], .instruction "sll" "(ix+$05)"⟩, rest)) ∧
    ∃ rest, d.toDecoder.decode 0x1000 iy =
      (.line ⟨0x1000, [0xFD, 0xCB, 0x05, 0x36], .instruction "sll" "(iy+$05)"⟩, rest) ∧
      rest.ahead = [0xC9] := by
  intro options d ix iy
  have hregistered : Disassembler.forName "z80" options = .ok d := forName_z80 options
  have hix : ix.Holds [0xDD, 0xCB, 0x05, 0x36, 0xC9] := Source.holds_ofBytes _
  have hiy : iy.Holds [0xFD, 0xCB, 0x05, 0x36, 0xC9] := Source.holds_ofBytes _
  have hset : d.toDecoder.instructions = processor.instructionSet := Eq.refl _
  have hvisible : ∀ key descriptor, (processor.entry? key).map (·.toDescriptor) = some descriptor →
      d.toDecoder.visible? key = some descriptor := by
    intro key descriptor hentry
    rw [← Decoder.get?_of_processor hset] at hentry
    exact Option.filter_eq_some_iff.mpr ⟨hentry, rfl⟩
  have hparent := hvisible (Opcode.ofBytes [0xDD, 0xCB])
    { length := 4, mnemonic := invalidMnemonic, mode := "(ix+D)", flags := { extended := true } }
    (by decide +kernel)
  have hchild := hvisible (Opcode.ofBytes ([0xDD, 0xCB] ++ [0x36]))
    { length := 4, mnemonic := "sll", mode := "(ix+D)", flags := { undocumented := true } }
    (by decide +kernel)
  have hformat : ∀ descriptor : Descriptor, descriptor.mode = "(ix+D)" →
      d.toDecoder.format? descriptor = some (.byte ⟨"(ix+", ")"⟩) := by
    intro descriptor hmode
    rw [Decoder.format?_of_processor hset, hmode]
    decide +kernel
  have hcontinues : d.toDecoder.Continues [0xDD, 0xCB] [0x05, 0x36] _ :=
    { opens := ⟨⟨[0x05, 0x36], rfl⟩, Or.inr ⟨0xDD, 0xCB, rfl, by decide⟩⟩
      visible := hparent
      known := ⟨_, hformat _ rfl⟩
      extended := rfl
      count := rfl }
  have hahead : ix.ahead = [0xDD, 0xCB] ++ [0x05, 0x36] ++ [0xC9] := hix.1
  have hfirst : ([0x05, 0x36] : List UInt8).head? = some 0x05 := rfl
  have hlast : ([0x05, 0x36] : List UInt8).getLast? = some 0x36 := rfl
  have hread : d.toDecoder.completeExtended 0x1000 [0xDD, 0xCB] [0x05, 0x36] =
      .line ⟨0x1000, [0xDD, 0xCB, 0x05, 0x36], .instruction "sll" "(ix+$05)"⟩ := by
    rw [Decoder.completeExtended_of_known hfirst hlast hchild (hformat _ rfl)]
    rfl
  obtain ⟨rest, hline, -⟩ := hcontinues.decode_eq hahead 0x1000
  rw [hread] at hline
  refine ⟨hregistered, hix, hiy, ⟨rest, hline⟩, ?_⟩
  rcases decode_index_pages hregistered 0x1000 [0xCB, 0x05, 0x36, 0xC9] hix hiy with
    ⟨hshort, -⟩ | ⟨more, body, body', _, rest', hunit, hother, -, hyields, halike⟩
  · exact absurd hshort (by decide)
  · cases hline.symm.trans hunit
    rw [halike.eq_of_named (by decide)] at hother
    exact ⟨rest', hother, List.append_cancel_left hyields.ahead.symm⟩

end ZilogZ80

end Disassembly
