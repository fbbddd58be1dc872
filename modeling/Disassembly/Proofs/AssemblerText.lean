import Disassembly.Proofs.LegibleRows
import Disassembly.Proofs.ListingRecord

/-!
# What an assembler is given

A listing without its margin is source text for an assembler: mnemonics, operands and data, but
neither addresses nor bytes. For a processor whose documented opcodes are legible the text still
tells the input (`text_determines_bytes`): the first word of a line tells an instruction from data
(`Layout.body_instruction_injective`), a legible list tells which opcode and which operand bytes it
is (`Decoder.Written.bytes_eq`), and where all lines so far are known the address of the next one is
known too, from which branches are told (`Passage.map_bytes_eq`). The 6502 and the 65C02 are such
processors.
-/

namespace Disassembly

/-! ## 1. Words of a line -/

namespace Layout

/-- The first word of a text. -/
def firstWord (text : List Char) : List Char := text.takeWhile (· ≠ ' ')

theorem firstWord_append {word rest : List Char} (h : ' ' ∉ word) :
    firstWord (word ++ rest) = word ++ firstWord rest := by
  refine List.takeWhile_append_of_pos fun c hc => decide_eq_true ?_
  rintro rfl
  exact h hc

/-- What stands behind the mnemonic of an instruction. -/
def behind (mnemonic operand : String) : List Char :=
  if operand.isEmpty then []
  else List.replicate (5 - mnemonic.length) ' ' ++ [' ', ' ', ' ', ' '] ++ operand.toList

theorem toList_instruction (mnemonic operand : String) :
    (body (.instruction mnemonic operand)).toList = mnemonic.toList ++ behind mnemonic operand := by
  unfold behind
  by_cases h : operand.isEmpty = true
  · rw [if_pos h, List.append_nil]
    exact congrArg String.toList (if_pos h)
  · rw [if_neg h]
    have hbody : body (.instruction mnemonic operand) =
        Text.padRight 5 mnemonic ++ "    " ++ operand := if_neg h
    rw [hbody, Text.padRight]
    simp only [String.toList_append, String.toList_ofList, List.append_assoc]
    rfl

theorem firstWord_behind (mnemonic operand : String) :
    firstWord (behind mnemonic operand) = [] := by
  unfold behind
  split
  · rfl
  · cases 5 - mnemonic.length with
    | zero => rfl
    | succ n => rfl

theorem firstWord_instruction {mnemonic : String} (h : ' ' ∉ mnemonic.toList) (operand : String) :
    firstWord (body (.instruction mnemonic operand)).toList = mnemonic.toList := by
  rw [toList_instruction, firstWord_append h, firstWord_behind, List.append_nil]

theorem firstWord_directive {name : String} (h : ' ' ∉ name.toList) (value : String) :
    firstWord (body (.directive name value)).toList = name.toList := by
  have hbody : (body (.directive name value)).toList =
      name.toList ++ (List.replicate (8 - name.length) ' ' ++ (' ' :: value.toList)) := by
    rw [body, Text.padRight]
    simp only [String.toList_append, String.toList_ofList, List.append_assoc]
    rfl
  have hgap : firstWord (List.replicate (8 - name.length) ' ' ++ (' ' :: value.toList)) = [] := by
    cases 8 - name.length with
    | zero => rfl
    | succ n => rfl
  rw [hbody, firstWord_append h, hgap, List.append_nil]

theorem behind_injective {mnemonic operand operand' : String}
    (h : behind mnemonic operand = behind mnemonic operand') : operand = operand' := by
  unfold behind at h
  by_cases hempty : operand.isEmpty = true
  · by_cases hempty' : operand'.isEmpty = true
    · rw [String.isEmpty_iff.mp hempty, String.isEmpty_iff.mp hempty']
    · rw [if_pos hempty, if_neg hempty'] at h
      simp at h
  · by_cases hempty' : operand'.isEmpty = true
    · rw [if_neg hempty, if_pos hempty'] at h
      simp at h
    · rw [if_neg hempty, if_neg hempty'] at h
      exact String.toList_injective (List.append_cancel_left h)

/-- **What an instruction says tells its mnemonic and its operand.** -/
theorem body_instruction_injective {mnemonic operand mnemonic' operand' : String}
    (hword : ' ' ∉ mnemonic.toList) (hword' : ' ' ∉ mnemonic'.toList)
    (h : body (.instruction mnemonic operand) = body (.instruction mnemonic' operand')) :
    mnemonic = mnemonic' ∧ operand = operand' := by
  have hfirst := firstWord_instruction hword operand
  rw [h, firstWord_instruction hword' operand'] at hfirst
  have hmnemonic : mnemonic = mnemonic' := String.toList_injective hfirst.symm
  subst hmnemonic
  have hlist := congrArg String.toList h
  rw [toList_instruction, toList_instruction] at hlist
  exact ⟨rfl, behind_injective (List.append_cancel_left hlist)⟩

/-- Data is not taken for an instruction. -/
theorem body_instruction_ne_directive {mnemonic operand name value : String}
    (hword : ' ' ∉ mnemonic.toList) (hname : ' ' ∉ name.toList) (hne : mnemonic ≠ name) :
    body (.instruction mnemonic operand) ≠ body (.directive name value) := by
  intro h
  have hfirst := firstWord_instruction hword operand
  rw [h, firstWord_directive hname value] at hfirst
  exact hne (String.toList_injective hfirst.symm)

theorem body_directive_injective {name value value' : String}
    (h : body (.directive name value) = body (.directive name value')) : value = value' := by
  have hlist := congrArg String.toList h
  simp only [body, String.toList_append] at hlist
  exact String.toList_injective (List.append_cancel_left hlist)

/-- Without a margin, what a unit says stands behind three spaces. -/
theorem ofList_drop_line {layout : Layout} (hlisting : layout.listing = false) (unit : Line) :
    String.ofList ((layout.line unit).toList.drop 3) = body unit.body := by
  have hmargin : layout.margin unit.address unit.bytes = "   " :=
    if_neg (by rw [hlisting]; exact Bool.false_ne_true)
  rw [line, hmargin, String.toList_append]
  exact String.ofList_toList

end Layout

/-! ## 2. Units -/

namespace Decoder

theorem toList_showData_of_printable {b : UInt8} (h : Text.isPrintable b = true) :
    (showData [b]).toList = "'".toList ++ [Text.character b] ++ "'".toList := by
  have hquote : showData [b] = Text.quote [b] := if_pos h
  rw [hquote, Text.toList_quote, Text.escaped_cons, Text.toList_escape_of_printable h]
  rfl

theorem showData_of_not_printable {b : UInt8} (h : Text.isPrintable b = false) :
    showData [b] = showByte (some b) := if_neg (by rw [h]; exact Bool.false_ne_true)

/-- Characters stand in quotes, numbers behind a sign. -/
theorem showData_ne {b b' : UInt8} (h : Text.isPrintable b = true)
    (h' : Text.isPrintable b' = false) : showData [b] ≠ showData [b'] := by
  intro heq
  have hhead := congrArg (fun text => text.toList.head?) heq
  rw [toList_showData_of_printable h, showData_of_not_printable h', showByte,
    String.toList_append] at hhead
  have hmarks : some (Char.ofNat 39) = some '$' := hhead
  exact absurd hmarks (by decide)

/-- A byte that is shown as data is told by what is shown. -/
theorem showData_singleton_injective {b b' : UInt8} (h : showData [b] = showData [b']) :
    b = b' := by
  cases hb : Text.isPrintable b with
  | true =>
    cases hb' : Text.isPrintable b' with
    | true =>
      have hlist := congrArg String.toList h
      rw [toList_showData_of_printable hb, toList_showData_of_printable hb'] at hlist
      have hcharacter : Text.character b = Text.character b' :=
        List.singleton_inj.mp (List.append_cancel_left (List.append_cancel_right hlist))
      rw [← Text.ofNat_toNat_character b, hcharacter, Text.ofNat_toNat_character]
    | false => exact absurd h (showData_ne hb hb')
  | false =>
    cases hb' : Text.isPrintable b' with
    | true => exact absurd h.symm (showData_ne hb' hb)
    | false =>
      rw [showData_of_not_printable hb, showData_of_not_printable hb'] at h
      exact Option.some.inj (showByte_injective h)

/-- **Units at one address that say the same are the same bytes**, if the opcode list is legible. -/
theorem Written.bytes_eq {rows : List Row} (hlegible : Rows.Legible rows) {unit other : Line}
    (h : Written rows unit) (hother : Written rows other) (haddress : unit.address = other.address)
    (hbody : Layout.body unit.body = Layout.body other.body) : unit.bytes = other.bytes := by
  have hdata : ' ' ∉ ".byte".toList := by decide
  rcases h with ⟨b, hb, hshown⟩ | ⟨row, hrow, opcode, operands, hb, hopcode, hlength, hshown⟩
  · rcases hother with ⟨b', hb', hshown'⟩ | ⟨row', hrow', opcode', operands', hb', -, -, hshown'⟩
    · rw [hshown, hshown'] at hbody
      rw [hb, hb', showData_singleton_injective (Layout.body_directive_injective hbody)]
    · rw [hshown, hshown'] at hbody
      exact absurd hbody.symm (Layout.body_instruction_ne_directive (hlegible.word row' hrow')
        hdata (hlegible.instruction row' hrow').2)
  · rcases hother with ⟨b', hb', hshown'⟩ |
      ⟨row', hrow', opcode', operands', hb', hopcode', hlength', hshown'⟩
    · rw [hshown, hshown'] at hbody
      exact absurd hbody (Layout.body_instruction_ne_directive (hlegible.word row hrow)
        hdata (hlegible.instruction row hrow).2)
    · rw [hshown, hshown', ← haddress] at hbody
      obtain ⟨hmnemonic, hoperand⟩ := Layout.body_instruction_injective (hlegible.word row hrow)
        (hlegible.word row' hrow') hbody
      obtain ⟨rfl, rfl⟩ := hlegible.eq_of_operand_eq hrow hrow' hlength hlength' hmnemonic hoperand
      have hsame : opcode = opcode' := UInt8.toNat_inj.mp (hopcode.symm.trans hopcode')
      rw [hb, hb', hsame]

end Decoder

/-! ## 3. Runs -/

namespace Disassembler

/-- The disassembler of a processor that writes listings without a margin. -/
def withoutMargin (processor : Processor) (start : Address) : Disassembler :=
  ofProcessor processor { start, listing := false }

variable {processor : Processor} {rows : List Row} {start : Address}

theorem written_of_settles (hdocuments : processor.Documents rows) (hlegible : Rows.Legible rows)
    {unit : Line} (h : (withoutMargin processor start).Settles unit) :
    Decoder.Written rows unit := by
  have hscan : (withoutMargin processor start).toDecoder.scan? unit.address unit.bytes =
      some { reading := .line unit, taken := unit.bytes } := h
  exact Decoder.written_of_scan? rfl hdocuments hlegible rfl rfl rfl hscan

/-- What a run finds is a passage over its input. -/
theorem passage_of_trace (d : Disassembler) (bytes : List UInt8) :
    ∃ rest, d.Passage d.start bytes (d.trace (.ofBytes bytes)).units
      (d.trace (.ofBytes bytes)).cursor rest := by
  obtain ⟨rest, hpassage, -⟩ := walk_eq_iff.mp (rfl : d.walk none d.start (.ofBytes bytes) = _)
  rw [Source.ahead_ofBytes] at hpassage
  exact ⟨rest, hpassage⟩

/-- **Passages from one cursor whose units say the same have the same bytes**: where the units so
    far have the same bytes, the next ones stand at the same address. -/
theorem Passage.map_bytes_eq (hdocuments : processor.Documents rows)
    (hlegible : Rows.Legible rows) {cursor last last' : Address}
    {bytes bytes' rest rest' : List UInt8} {units units' : List Line}
    (h : (withoutMargin processor start).Passage cursor bytes units last rest)
    (h' : (withoutMargin processor start).Passage cursor bytes' units' last' rest')
    (hbodies : units.map (fun unit => Layout.body unit.body) =
      units'.map (fun unit => Layout.body unit.body)) :
    units.map (·.bytes) = units'.map (·.bytes) := by
  induction h generalizing bytes' units' with
  | refl cursor bytes =>
    have hnone := List.map_eq_nil_iff.mp hbodies.symm
    rw [hnone]
  | step hscan hrest ih =>
    cases h' with
    | refl => cases hbodies
    | step hscan' hrest' =>
      obtain ⟨hbody, hothers⟩ := List.cons.inj hbodies
      have hwritten := written_of_settles hdocuments hlegible (settles_of_scan? hscan)
      have hwritten' := written_of_settles hdocuments hlegible (settles_of_scan? hscan')
      have haddress := (scan?_line hscan).1.trans (scan?_line hscan').1.symm
      have hbytes := hwritten.bytes_eq hlegible hwritten' haddress hbody
      rw [← hbytes] at hrest'
      rw [List.map_cons, List.map_cons, hbytes, ih hrest' hothers]

theorem no_strings_withoutMargin (processor : Processor) (start : Address) :
    ∀ region ∈ (withoutMargin processor start).regions, region.kind ≠ .string := by
  intro region hregion
  cases hregion

/-- The text of a run without a margin tells what its units say. -/
theorem map_body_of_text (hprocessor : processor.OneLine) (start : Address) (source : Source)
    (stopAfter : Option Nat) :
    (unitTexts ((withoutMargin processor start).run source stopAfter).text).map
        (fun line => String.ofList (line.drop 3)) =
      ((withoutMargin processor start).trace source stopAfter).units.map
        fun unit => Layout.body unit.body := by
  have hstrings := no_strings_withoutMargin processor start
  rw [unitTexts_run_of_no_strings rfl hprocessor rfl hstrings, emitted_of_no_strings hstrings,
    List.map_map]
  exact List.map_congr_left fun unit _ => Layout.ofList_drop_line rfl unit

/-- Runs that write the same text have read units of the same bytes. -/
theorem map_bytes_eq_of_text_eq (hdocuments : processor.Documents rows)
    (hlegible : Rows.Legible rows) (hprocessor : processor.OneLine) {bytes others : List UInt8}
    (htext : ((withoutMargin processor start).run (.ofBytes bytes)).text =
      ((withoutMargin processor start).run (.ofBytes others)).text) :
    ((withoutMargin processor start).trace (.ofBytes bytes)).units.map (·.bytes) =
      ((withoutMargin processor start).trace (.ofBytes others)).units.map (·.bytes) := by
  obtain ⟨rest, hpassage⟩ := passage_of_trace (withoutMargin processor start) bytes
  obtain ⟨rest', hpassage'⟩ := passage_of_trace (withoutMargin processor start) others
  have hbodies := map_body_of_text hprocessor start (.ofBytes bytes) none
  rw [htext, map_body_of_text hprocessor start (.ofBytes others) none] at hbodies
  exact Passage.map_bytes_eq hdocuments hlegible hpassage hpassage' hbodies.symm

/-- **What an assembler is given tells the program.** Two runs of a processor with legible opcodes,
    from one address, that both end between two units write the same text for the same input and for
    no other. -/
theorem text_determines_bytes (hdocuments : processor.Documents rows)
    (hlegible : Rows.Legible rows) (hprocessor : processor.OneLine) {bytes others : List UInt8}
    {stopAfter stopAfter' : Option Nat} {summary summary' : Summary}
    (hrun : ((withoutMargin processor start).run (.ofBytes bytes) stopAfter).result = .ok summary)
    (hend : summary.outcome = .complete)
    (hrun' : ((withoutMargin processor start).run (.ofBytes others) stopAfter').result =
      .ok summary')
    (hend' : summary'.outcome = .complete) :
    ((withoutMargin processor start).run (.ofBytes bytes) stopAfter).text =
      ((withoutMargin processor start).run (.ofBytes others) stopAfter').text ↔
    bytes = others := by
  refine text_eq_iff_of_complete hrun hend hrun' hend' fun htext => ?_
  have hstrings := no_strings_withoutMargin processor start
  rw [emitted_of_no_strings hstrings, emitted_of_no_strings hstrings]
  exact map_bytes_eq_of_text_eq hdocuments hlegible hprocessor htext

/-- **An assembler's text tells the program of a 6502 and of a 65C02.** -/
theorem assembler_text_determines_bytes {processor : Processor}
    (hprocessor : processor ∈ [Nmos6502.processor, Cmos65C02.processor]) (start : Address)
    {bytes others : List UInt8} {stopAfter stopAfter' : Option Nat} {summary summary' : Summary}
    (hrun : ((withoutMargin processor start).run (.ofBytes bytes) stopAfter).result = .ok summary)
    (hend : summary.outcome = .complete)
    (hrun' : ((withoutMargin processor start).run (.ofBytes others) stopAfter').result =
      .ok summary')
    (hend' : summary'.outcome = .complete) :
    ((withoutMargin processor start).run (.ofBytes bytes) stopAfter).text =
      ((withoutMargin processor start).run (.ofBytes others) stopAfter').text ↔
    bytes = others := by
  simp only [List.mem_cons, List.not_mem_nil, or_false] at hprocessor
  rcases hprocessor with rfl | rfl
  · exact text_determines_bytes Nmos6502.processor_documents Nmos6502.documented_legible
      Nmos6502.processor_oneLine hrun hend hrun' hend'
  · exact text_determines_bytes Cmos65C02.processor_documents Cmos65C02.documented_legible
      Cmos65C02.processor_oneLine hrun hend hrun' hend'

/-- A branch over the end of the address space and one that stays below it, and behind both a byte
    that means nothing: the texts are not the same. -/
theorem assembler_text_determines_bytes_wrapped :
    let d := withoutMargin Cmos65C02.processor 0xFFFC
    let bytes : List UInt8 := [0xD0, 0x7F, 0x02]
    let others : List UInt8 := [0xD0, 0x80, 0x02]
    let summary : Summary := { outcome := .complete, finalAddress := 0xFFFF, lines := 2 }
    (d.run (.ofBytes bytes)).result = .ok summary ∧
    (d.run (.ofBytes others)).result = .ok summary ∧
    (d.run (.ofBytes bytes)).text ≠ (d.run (.ofBytes others)).text := by
  intro d bytes others summary
  let data : Line := ⟨0xFFFE, [0x02], .directive ".byte" "$02"⟩
  have htrace : d.trace (.ofBytes bytes) =
      { units := [⟨0xFFFC, [0xD0, 0x7F], .instruction "bne" "$007D"⟩, data]
        ending := .complete
        cursor := 0xFFFF } := by decide +kernel
  have htrace' : d.trace (.ofBytes others) =
      { units := [⟨0xFFFC, [0xD0, 0x80], .instruction "bne" "$FF7E"⟩, data]
        ending := .complete
        cursor := 0xFFFF } := by decide +kernel
  have hrun : (d.run (.ofBytes bytes)).result = .ok summary := by
    rw [result_run, htrace]
    rfl
  have hrun' : (d.run (.ofBytes others)).result = .ok summary := by
    rw [result_run, htrace']
    rfl
  have hprocessor : Cmos65C02.processor ∈ [Nmos6502.processor, Cmos65C02.processor] :=
    List.mem_cons_of_mem _ List.mem_cons_self
  have htext := assembler_text_determines_bytes hprocessor 0xFFFC hrun rfl hrun' rfl
  exact ⟨hrun, hrun', mt htext.mp (by decide)⟩

end Disassembler

end Disassembly
