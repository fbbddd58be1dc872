import Disassembly.Proofs.Instructions
import Disassembly.Proofs.Lines
import Disassembly.Proofs.RegionBounds

/-!
# The lines of a listing

What a unit says is put together from numbers and from texts that the description of the processor
fixes. Where none of these texts has a line end inside (`Processor.OneLine`), what the unit says
fits on a line (`oneLine_of_settles`), and then the listing falls into its lines again: between the
two lines of the header and the next empty line stand the lines of the units, one each, if there are
no labels (`unitTexts_run`).

The registered processors are of that kind (`Registry.oneLine_of_mem`).
-/

namespace Disassembly

open Text (OneLine)

/-! ## 1. Operands -/

namespace Affix

/-- The texts that the affix fixes. -/
def texts (affix : Affix) : List String := [affix.before, affix.after]

theorem oneLine_wrap {affix : Affix} {value : String} (h : ∀ text ∈ affix.texts, OneLine text)
    (hvalue : OneLine value) : OneLine (affix.wrap value) := by
  have hbefore := h affix.before List.mem_cons_self
  have hafter := h affix.after (List.mem_cons_of_mem _ List.mem_cons_self)
  exact (hbefore.append hvalue).append hafter

end Affix

/-- The names of the table have no line end inside. -/
def LabelTable.OneLine (labels : LabelTable) : Prop :=
  ∀ address name, labels.nameAt? address = some name → Text.OneLine name

theorem LabelTable.oneLine_empty : empty.OneLine := by
  intro address name hname
  rw [nameAt?_empty] at hname
  cases hname

theorem oneLine_showByte (value : Option UInt8) : OneLine (showByte value) := by
  have hsign : OneLine "$" := by decide
  cases value with
  | some b => exact hsign.append (Text.oneLine_byte b)
  | none => decide

theorem oneLine_showWord (value : Option UInt16) : OneLine (showWord value) := by
  have hsign : OneLine "$" := by decide
  cases value with
  | some w => exact hsign.append (Text.oneLine_word w)
  | none => decide

theorem oneLine_showAddress {labels : LabelTable} (h : labels.OneLine) (address : Option Address) :
    OneLine (showAddress labels address) := by
  unfold showAddress
  split
  · rename_i name hname
    obtain ⟨a, -, hname⟩ := Option.bind_eq_some_iff.mp hname
    exact h a name hname
  · exact oneLine_showWord address

namespace Piece

/-- The texts that the piece fixes. -/
def texts : Piece → List String
  | text shown => [shown]
  | byte _ | word .. | target => []

theorem oneLine_render {piece : Piece} {context : OperandContext}
    (h : ∀ text ∈ piece.texts, OneLine text) (hlabels : context.labels.OneLine) :
    OneLine (piece.render context) := by
  cases piece with
  | text shown => exact h shown List.mem_cons_self
  | byte index => exact oneLine_showByte _
  | word index order => exact oneLine_showWord _
  | target => exact oneLine_showAddress hlabels _

end Piece

namespace OperandFormat

/-- The texts that the format fixes. -/
def texts : OperandFormat → List String
  | implied => []
  | fixed shown => [shown]
  | byte affix | word _ affix _ | relative8 affix | relative16 _ affix => affix.texts
  | registerPair names => names.toList
  | pieces parts => parts.flatMap Piece.texts

/-- **An operand fits on a line**, if the texts of its format do, and the names that may stand for
    an address. -/
theorem oneLine_render {format : OperandFormat} {context : OperandContext}
    (h : ∀ text ∈ format.texts, OneLine text) (hlabels : context.labels.OneLine) :
    OneLine (format.render context) := by
  cases format with
  | implied => exact (by decide : OneLine "")
  | fixed shown => exact h shown List.mem_cons_self
  | byte affix => exact Affix.oneLine_wrap h (oneLine_showByte _)
  | word order affix label =>
    refine Affix.oneLine_wrap h ?_
    split
    · exact oneLine_showAddress hlabels _
    · exact oneLine_showWord _
  | relative8 affix => exact Affix.oneLine_wrap h (oneLine_showAddress hlabels _)
  | relative16 order affix => exact Affix.oneLine_wrap h (oneLine_showAddress hlabels _)
  | registerPair names =>
    have hname : ∀ index : Fin 16, OneLine (names.get index) := fun index =>
      h _ (Vector.mem_toList_iff.mpr (Vector.getElem_mem index.isLt))
    have hcomma : OneLine "," := by decide
    simp only [render]
    split
    · exact ((hname _).append hcomma).append (hname _)
    · decide
  | pieces parts =>
    refine .join fun shown hshown => ?_
    obtain ⟨piece, hpiece, rfl⟩ := List.mem_map.mp hshown
    exact Piece.oneLine_render
      (fun text htext => h text (List.mem_flatMap.mpr ⟨piece, hpiece, htext⟩)) hlabels

end OperandFormat

/-! ## 2. Bodies -/

/-- What the unit says has no line end inside. -/
def Body.OneLine : Body → Prop
  | .instruction mnemonic operand => Text.OneLine mnemonic ∧ Text.OneLine operand
  | .directive name value => Text.OneLine name ∧ Text.OneLine value

theorem DataKind.oneLine_showCharacter (value : Option UInt8) :
    Text.OneLine (showCharacter value) := by
  cases value with
  | some b =>
    simp only [showCharacter]
    split
    · rename_i hprintable
      have hplain := Text.oneLine_escape b
      rw [Text.escape, if_pos hprintable] at hplain
      exact hplain
    · exact oneLine_showByte (some b)
  | none => exact oneLine_showByte none

theorem DataKind.oneLine_line (kind : DataKind) (address : Address) (bytes : List UInt8) :
    (kind.line address bytes).body.OneLine := by
  refine ⟨by cases kind <;> decide, ?_⟩
  cases kind with
  | ascii => exact oneLine_showCharacter _
  | byte => exact oneLine_showByte _
  | wordBigEndian => exact oneLine_showWord _
  | wordLittleEndian => exact oneLine_showWord _
  | string => exact Text.oneLine_quote bytes

namespace Layout

theorem oneLine_body {body : Body} (h : body.OneLine) : OneLine (Layout.body body) := by
  have hgap : OneLine "    " := by decide
  have hblank : OneLine " " := by decide
  cases body with
  | instruction mnemonic operand =>
    unfold Layout.body
    dsimp only
    split
    · exact h.1
    · exact ((h.1.padRight 5).append hgap).append h.2
  | directive name value => exact ((h.1.padRight 8).append hblank).append h.2

theorem oneLine_margin (layout : Layout) (address : Address) (bytes : List UInt8) :
    OneLine (layout.margin address bytes) := by
  have hgap : OneLine "  " := by decide
  have hblank : OneLine " " := by decide
  have hmargin : OneLine "    " := by decide
  unfold margin
  split
  · have hshown : OneLine (" ".intercalate ((bytes.take layout.shownBytes).map Hex.byte)) := by
      refine .intercalate hblank fun text htext => ?_
      obtain ⟨b, -, rfl⟩ := List.mem_map.mp htext
      exact Text.oneLine_byte b
    exact (((Text.oneLine_word address).append hgap).append (hshown.padRight _)).append hmargin
  · decide

theorem oneLine_line (layout : Layout) {unit : Line} (h : unit.body.OneLine) :
    OneLine (layout.line unit) :=
  (layout.oneLine_margin unit.address unit.bytes).append (oneLine_body h)

/-- There is something in front of everything a unit says. -/
theorem line_ne_nil (layout : Layout) (unit : Line) : (layout.line unit).toList ≠ [] := by
  have hmargin : (layout.margin unit.address unit.bytes).toList ≠ [] := by
    unfold margin
    split
    · simp [Hex.word]
    · decide
  rw [line, String.toList_append]
  exact List.append_ne_nil_of_left_ne_nil hmargin _

end Layout

/-! ## 3. Processors -/

/-- The texts that the description fixes have no line end inside. -/
def Processor.OneLine (processor : Processor) : Prop :=
  (∀ layer ∈ processor.layers, ∀ entry ∈ layer, Text.OneLine entry.mnemonic) ∧
    ∀ mode ∈ processor.modes, ∀ text ∈ mode.format.texts, Text.OneLine text

instance (processor : Processor) : Decidable processor.OneLine :=
  inferInstanceAs (Decidable (_ ∧ _))

theorem Nmos6502.processor_oneLine : processor.OneLine := by decide +kernel

theorem Cmos65C02.processor_oneLine : processor.OneLine := by decide +kernel

theorem Motorola6809.processor_oneLine : processor.OneLine := by decide +kernel

theorem ZilogZ80.processor_oneLine : processor.OneLine := by decide +kernel

theorem Registry.oneLine_of_mem {processor : Processor} (h : processor ∈ processors) :
    processor.OneLine := by
  simp only [processors, List.mem_cons, List.not_mem_nil, or_false] at h
  rcases h with rfl | rfl | rfl | rfl
  · exact Nmos6502.processor_oneLine
  · exact Cmos65C02.processor_oneLine
  · exact Motorola6809.processor_oneLine
  · exact ZilogZ80.processor_oneLine

namespace Decoder

variable {decoder : Decoder} {processor : Processor}

theorem oneLine_showData (bytes : List UInt8) : OneLine (showData bytes) := by
  unfold showData
  split
  · split
    · exact Text.oneLine_quote _
    · exact oneLine_showByte _
  · refine .intercalate (by decide) fun text htext => ?_
    obtain ⟨b, -, rfl⟩ := List.mem_map.mp htext
    exact oneLine_showByte _

theorem oneLine_unit (decoder : Decoder) (address : Address) (bytes : List UInt8)
    {mnemonic operand : String} (hmnemonic : OneLine mnemonic) (hoperand : OneLine operand) :
    (decoder.unit address bytes mnemonic operand).body.OneLine := by
  unfold unit
  dsimp only
  split
  · exact ⟨by decide, oneLine_showData bytes⟩
  · exact ⟨hmnemonic, hoperand⟩

theorem Shows.oneLine {unit : Line} (h : decoder.Shows unit)
    (hset : decoder.instructions = processor.instructionSet) (hprocessor : processor.OneLine)
    (hlabels : decoder.labels.OneLine) : unit.body.OneLine := by
  rcases h with h | ⟨key, descriptor, format, operands, hvisible, hformat, h⟩
  · rw [h]
    exact oneLine_unit _ _ _ (by decide) (by decide)
  · obtain ⟨⟨layer, hlayer, entry, hentry, -, rfl⟩, -⟩ := exists_entry_of_visible? hset hvisible
    obtain ⟨mode, hmode, -, rfl⟩ := exists_mode_of_format? hset hformat
    rw [h]
    exact oneLine_unit _ _ _ (hprocessor.1 layer hlayer entry hentry)
      (OperandFormat.oneLine_render (hprocessor.2 mode hmode) hlabels)

end Decoder

/-! ## 4. Runs -/

namespace Disassembler

variable {d : Disassembler} {processor : Processor} {source : Source} {stopAfter : Option Nat}

/-- A unit of data is one of its region; any other is one of the decoder. -/
theorem Settles.cases {unit : Line} (h : d.Settles unit) :
    (∃ region ∈ d.regions, unit.bytes.length = region.unitLength unit.address ∧
      unit = region.kind.line unit.address unit.bytes) ∨
    d.toDecoder.scan? unit.address unit.bytes =
      some { reading := .line unit, taken := unit.bytes } := by
  cases hregion : d.regions.at? unit.address with
  | some region =>
    have hmem : region ∈ d.regions := List.mem_of_find?_eq_some hregion
    exact Or.inl ⟨region, hmem, h.unit_of_region hregion⟩
  | none =>
    unfold Settles scan? at h
    rw [hregion] at h
    exact Or.inr h

/-- **What a unit says fits on a line.** -/
theorem oneLine_of_settles {unit : Line} (h : d.Settles unit)
    (hset : d.instructions = processor.instructionSet) (hprocessor : processor.OneLine)
    (hlabels : d.labels.OneLine) : unit.body.OneLine := by
  rcases h.cases with ⟨region, -, -, hunit⟩ | hscan
  · rw [hunit]
    exact region.kind.oneLine_line _ _
  · exact (Decoder.shows_of_scan? hscan).oneLine hset hprocessor hlabels

/-- Without regions of strings only complete units are shown. -/
theorem emitted_of_no_strings (h : ∀ region ∈ d.regions, region.kind ≠ .string) (source : Source)
    (stopAfter : Option Nat) :
    (d.trace source stopAfter).emitted = (d.trace source stopAfter).units := by
  rcases (d.trace source stopAfter).emitted_cases with hshown | ⟨part, hending, -⟩
  · exact hshown
  · obtain ⟨-, region, hregion, hkind, -⟩ := cutShort_of_ending hending
    exact absurd hkind (h region (List.mem_of_find?_eq_some hregion))

/-- The unit lines of a listing: those behind the two lines of the header, up to the next empty
    one. -/
def unitTexts (text : String) : List (List Char) :=
  ((Text.split '\n' text.toList).drop 2).takeWhile (· ≠ [])

theorem labelLines_of_no_labels (h : ∀ address, d.labels.nameAt? address = none)
    (address : Address) : d.labelLines address = [] := by
  rw [labelLines, h]
  rfl

/-- What stands behind the units of a listing begins with an empty line, if there is anything. -/
theorem closingLines_of_no_labels (h : ∀ address, d.labels.nameAt? address = none)
    (trace : Trace) :
    d.closingLines trace = [] ∨ d.closingLines trace = ["", d.layout.trailer trace.cursor] := by
  unfold closingLines
  rw [labelLines_of_no_labels h]
  split
  · exact Or.inr rfl
  · exact Or.inl rfl
  · exact Or.inl rfl
  · exact Or.inl rfl
  · exact Or.inl rfl

theorem listingLines_of_no_labels (h : ∀ address, d.labels.nameAt? address = none)
    (source : Source) (stopAfter : Option Nat) :
    d.listingLines (d.trace source stopAfter) = d.layout.origin d.start :: "" ::
      ((d.trace source stopAfter).emitted.map d.layout.line ++
        d.closingLines (d.trace source stopAfter)) := by
  have hunits : d.unitLines = fun unit => [d.layout.line unit] := by
    funext unit
    rw [unitLines, labelLines_of_no_labels h]
    rfl
  have hpart : ∀ part, (d.trace source stopAfter).ending = .truncated (some part) →
      part.address = (d.trace source stopAfter).cursor :=
    fun part hending => (cutShort_of_ending hending).1
  rw [listingLines_eq d hpart, hunits, ← List.map_eq_flatMap]
  rfl

/-- **Between header and close stand the lines of the units**, one each. -/
theorem unitTexts_run (hlabels : ∀ address, d.labels.nameAt? address = none)
    (hbodies : ∀ unit ∈ (d.trace source stopAfter).emitted, unit.body.OneLine) :
    unitTexts (d.run source stopAfter).text =
      (d.trace source stopAfter).emitted.map fun unit => (d.layout.line unit).toList := by
  have hclose : ∀ line ∈ d.closingLines (d.trace source stopAfter), OneLine line := by
    intro line hline
    rcases closingLines_of_no_labels hlabels (d.trace source stopAfter) with hnone | hend
    · rw [hnone] at hline
      cases hline
    · rw [hend] at hline
      simp only [List.mem_cons, List.not_mem_nil, or_false] at hline
      rcases hline with rfl | rfl
      · decide
      · exact (d.layout.oneLine_margin _ []).append (by decide)
  have hunits : ∀ line ∈ (d.trace source stopAfter).emitted.map d.layout.line, OneLine line := by
    intro line hline
    obtain ⟨unit, hunit, rfl⟩ := List.mem_map.mp hline
    exact d.layout.oneLine_line (hbodies unit hunit)
  have horigin : OneLine (d.layout.origin d.start) :=
    (d.layout.oneLine_margin _ []).append (Layout.oneLine_body ⟨by decide,
      OneLine.append (by decide) (Text.oneLine_word d.start)⟩)
  have hlines : ∀ line ∈ d.listingLines (d.trace source stopAfter), OneLine line := by
    rw [listingLines_of_no_labels hlabels]
    intro line hline
    rcases List.mem_cons.mp hline with rfl | hline
    · exact horigin
    · rcases List.mem_cons.mp hline with rfl | hline
      · decide
      · exact (List.mem_append.mp hline).elim (hunits line) (hclose line)
  have hshown : ∀ line ∈ (d.trace source stopAfter).emitted.map
      (String.toList ∘ d.layout.line), decide (line ≠ []) = true := by
    intro line hline
    obtain ⟨unit, -, rfl⟩ := List.mem_map.mp hline
    exact decide_eq_true (d.layout.line_ne_nil unit)
  have hbehind : ((d.closingLines (d.trace source stopAfter)).map String.toList ++
      [[]]).takeWhile (· ≠ []) = [] := by
    rcases closingLines_of_no_labels hlabels (d.trace source stopAfter) with hnone | hend
    · rw [hnone]
      rfl
    · rw [hend]
      rfl
  rw [unitTexts, text_run, Text.split_ofLines hlines, listingLines_of_no_labels hlabels]
  simp only [List.map_cons, List.map_append, List.map_map, List.cons_append, List.drop_succ_cons,
    List.drop_zero, List.append_assoc]
  rw [List.takeWhile_append_of_pos hshown, hbehind, List.append_nil]
  rfl

/-- The lines of the units can be told in every listing without labels and strings, if the texts of
    the processor fit on lines. -/
theorem unitTexts_run_of_no_strings (hset : d.instructions = processor.instructionSet)
    (hprocessor : processor.OneLine) (hlabels : d.labels = .empty)
    (hstrings : ∀ region ∈ d.regions, region.kind ≠ .string) (source : Source)
    (stopAfter : Option Nat) :
    unitTexts (d.run source stopAfter).text =
      (d.trace source stopAfter).emitted.map fun unit => (d.layout.line unit).toList := by
  have hnames : ∀ address, d.labels.nameAt? address = none := by
    rw [hlabels]
    exact LabelTable.nameAt?_empty
  have hfits : d.labels.OneLine := by
    rw [hlabels]
    exact LabelTable.oneLine_empty
  refine unitTexts_run hnames fun unit hunit => ?_
  rw [emitted_of_no_strings hstrings] at hunit
  exact oneLine_of_settles (settles_of_mem_units hunit) hset hprocessor hfits

end Disassembler

end Disassembly
