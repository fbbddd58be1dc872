import Disassembly.Proofs.ListingLines

/-!
# What a full listing records

A full listing shows in its margin what was read: the address of each unit, and its bytes, where
they fit into the column that is there for them. `readListing?` reads both back, from the text
alone. A registered processor has no units too long for the column, unless regions of strings make
some, so a listing without these, and without labels, is a record of all units
(`readListing?_run`). Where the input ended between two units, that is a record of the input
(`text_eq_iff_of_complete`).
-/

namespace Disassembly

/-! ## 1. Words -/

/-- Where each item is read back from its text, the list is read back from the texts. -/
theorem mapM_map_eq_some {items : List α} {text : α → β} {read : β → Option γ} {value : α → γ}
    (h : ∀ item ∈ items, read (text item) = some (value item)) :
    (items.map text).mapM read = some (items.map value) := by
  induction items with
  | nil => rfl
  | cons item items ih =>
    have hitem := h item List.mem_cons_self
    have hitems := ih fun other hother => h other (List.mem_cons_of_mem item hother)
    rw [List.map_cons, List.mapM_cons, hitem, hitems]
    rfl

namespace Text

/-- The pieces of a text between blanks, the empty ones left out. -/
def words (text : List Char) : List (List Char) := (split ' ' text).filter (· ≠ [])

variable {word rest : List Char}

theorem words_blank (text : List Char) : words (' ' :: text) = words text := by
  rw [words, split_cons_self, List.filter_cons_of_neg (by decide)]
  rfl

theorem words_blanks (n : Nat) : words (List.replicate n ' ') = [] := by
  induction n with
  | zero => rfl
  | succ n ih =>
    rw [List.replicate_succ, words_blank]
    exact ih

theorem words_append_blank (hword : ' ' ∉ word) (hne : word ≠ []) :
    words (word ++ ' ' :: rest) = word :: words rest := by
  rw [words, split_append_cons hword]
  exact List.filter_cons_of_pos (decide_eq_true hne)

/-- Blanks behind a word are not part of it. -/
theorem words_append_blanks (hword : ' ' ∉ word) (hne : word ≠ []) (n : Nat) :
    words (word ++ List.replicate n ' ') = [word] := by
  cases n with
  | zero =>
    rw [List.replicate_zero, List.append_nil, words, split_of_not_mem hword]
    exact List.filter_cons_of_pos (decide_eq_true hne)
  | succ n =>
    rw [List.replicate_succ, words_append_blank hword hne, words_blanks]

/-- **Words that stand in a column, a blank between any two of them, are found in it.** -/
theorem words_intercalate {texts : List String}
    (h : ∀ text ∈ texts, ' ' ∉ text.toList ∧ text.toList ≠ []) (n : Nat) :
    words ((" ".intercalate texts).toList ++ List.replicate n ' ') = texts.map String.toList := by
  induction texts with
  | nil => exact words_blanks n
  | cons text texts ih =>
    obtain ⟨htext, hne⟩ := h text List.mem_cons_self
    have htexts := ih fun other hother => h other (List.mem_cons_of_mem text hother)
    cases texts with
    | nil =>
      rw [String.intercalate_singleton]
      exact words_append_blanks htext hne n
    | cons next others =>
      have hcolumn : (" ".intercalate (text :: next :: others)).toList ++ List.replicate n ' ' =
          text.toList ++ ' ' :: ((" ".intercalate (next :: others)).toList ++
            List.replicate n ' ') := by
        rw [String.intercalate_cons_cons, String.toList_append, String.toList_append,
          List.append_assoc, List.append_assoc]
        rfl
      rw [hcolumn, words_append_blank htext hne, htexts]
      rfl

end Text

/-! ## 2. The margin -/

namespace Hex

/-- The byte that two digits spell. -/
def byteOf? (digits : List Char) : Option UInt8 :=
  if digits.length = 2 then (value? digits).map UInt8.ofNat else none

theorem byteOf?_byte (b : UInt8) : byteOf? (byte b).toList = some b := by
  rw [byteOf?, if_pos (length_byte b), value?_byte, Option.map_some, UInt8.ofNat_toNat]

theorem mapM_byteOf? (bytes : List UInt8) :
    ((bytes.map byte).map String.toList).mapM byteOf? = some bytes := by
  have hbytes : ∀ b ∈ bytes, byteOf? ((String.toList ∘ byte) b) = some (id b) :=
    fun b _ => byteOf?_byte b
  rw [List.map_map, mapM_map_eq_some hbytes, List.map_id]

theorem byte_is_word (b : UInt8) : ' ' ∉ (byte b).toList ∧ (byte b).toList ≠ [] := by
  refine ⟨fun hmem => absurd (mem_byte hmem) (by decide), fun hnil => ?_⟩
  have hlength := length_byte b
  rw [hnil] at hlength
  cases hlength

/-- So many bytes take three characters each, but for the last. -/
theorem length_intercalate_byte (bytes : List UInt8) :
    (" ".intercalate (bytes.map byte)).toList.length = bytes.length * 3 - 1 := by
  induction bytes with
  | nil => rfl
  | cons b bytes ih =>
    cases bytes with
    | nil =>
      rw [List.map_singleton, String.intercalate_singleton, length_byte]
      rfl
    | cons next bytes =>
      rw [List.map_cons] at ih
      rw [List.map_cons, List.map_cons, String.intercalate_cons_cons, String.toList_append,
        String.toList_append, List.length_append, List.length_append, ih, length_byte]
      show 2 + 1 + _ = _
      simp only [List.length_cons]
      omega

end Hex

/-- The address and the bytes in the margin of a line that has room for so many: four digits at the
    very left, and the pairs of digits in the column behind the gap. -/
def readMargin? (room : Nat) (line : List Char) : Option (Address × List UInt8) := do
  let address ← Hex.value? (line.take 4)
  let bytes ← (Text.words ((line.drop 6).take (room * 3 - 1))).mapM Hex.byteOf?
  return (UInt16.ofNat address, bytes)

namespace Layout

variable {layout : Layout} {unit : Line}

/-- The column of the bytes is as wide as there is room for them. -/
theorem length_column {bytes : List UInt8} {room : Nat} (h : bytes.length ≤ room) :
    (Text.padRight (room * 3 - 1) (" ".intercalate (bytes.map Hex.byte))).toList.length =
      room * 3 - 1 := by
  have hlength := Hex.length_intercalate_byte bytes
  rw [Text.padRight, String.toList_append, String.toList_ofList, List.length_append,
    List.length_replicate, ← String.length_toList]
  omega

/-- **What the margin shows is what the unit is made of**, if there is room for its bytes. -/
theorem readMargin?_line (hlisting : layout.listing = true)
    (hfits : unit.bytes.length ≤ layout.shownBytes) :
    readMargin? layout.shownBytes (layout.line unit).toList = some (unit.address, unit.bytes) := by
  have hline : (layout.line unit).toList = (Hex.word unit.address).toList ++ ([' ', ' '] ++
      ((Text.padRight (layout.shownBytes * 3 - 1)
        (" ".intercalate (unit.bytes.map Hex.byte))).toList ++
        ([' ', ' ', ' ', ' '] ++ (body unit.body).toList))) := by
    rw [line, margin, if_pos hlisting, List.take_of_length_le hfits]
    simp only [String.toList_append, List.append_assoc]
    rfl
  have hword := Hex.length_word unit.address
  have haddress : (layout.line unit).toList.take 4 = (Hex.word unit.address).toList := by
    rw [hline]
    exact List.take_left' hword
  have hcolumn : ((layout.line unit).toList.drop 6).take (layout.shownBytes * 3 - 1) =
      (Text.padRight (layout.shownBytes * 3 - 1)
        (" ".intercalate (unit.bytes.map Hex.byte))).toList := by
    rw [hline, ← List.append_assoc, List.drop_left' (by rw [List.length_append, hword]; rfl)]
    exact List.take_left' (length_column hfits)
  have hwords : ∀ text ∈ unit.bytes.map Hex.byte, ' ' ∉ text.toList ∧ text.toList ≠ [] := by
    intro text htext
    obtain ⟨b, -, rfl⟩ := List.mem_map.mp htext
    exact Hex.byte_is_word b
  rw [readMargin?, haddress, hcolumn, Text.padRight, String.toList_append, String.toList_ofList,
    Text.words_intercalate hwords, Hex.mapM_byteOf?, Hex.value?_word]
  show some (UInt16.ofNat unit.address.toNat, unit.bytes) = _
  rw [UInt16.ofNat_toNat]

end Layout

/-! ## 3. Units of a registered processor -/

/-- There is room in the margin for an opcode with a lead-in byte. -/
theorem Registry.two_le_maxLength_of_mem {processor : Processor} (h : processor ∈ processors) :
    2 ≤ processor.maxLength := by
  simp only [processors, List.mem_cons, List.not_mem_nil, or_false] at h
  rcases h with rfl | rfl | rfl | rfl <;> decide

/-- Units of data are short, but for strings. -/
theorem Region.unitLength_le_two {region : Region} (h : region.kind ≠ .string)
    (address : Address) : region.unitLength address ≤ 2 := by
  unfold unitLength
  cases hkind : region.kind with
  | string => exact absurd hkind h
  | ascii => exact Nat.le_succ 1
  | byte => exact Nat.le_succ 1
  | wordBigEndian => exact Nat.le_refl 2
  | wordLittleEndian => exact Nat.le_refl 2

namespace Disassembler

/-- The units of a listing with room for so many bytes in its margin, as far as the margin tells:
    their addresses and their bytes. -/
def readListing? (room : Nat) (text : String) : Option (List (Address × List UInt8)) :=
  (unitTexts text).mapM (readMargin? room)

variable {d : Disassembler} {processor : Processor}

/-- **There is room in the margin for every unit** of a registered processor, but for strings. -/
theorem length_bytes_le_of_settles {unit : Line} (h : d.Settles unit)
    (hprocessor : processor ∈ Registry.processors)
    (hset : d.instructions = processor.instructionSet)
    (hstrings : ∀ region ∈ d.regions, region.kind ≠ .string) :
    unit.bytes.length ≤ processor.maxLength := by
  have htwo := Registry.two_le_maxLength_of_mem hprocessor
  rcases h.cases with ⟨region, hregion, hlength, -⟩ | hscan
  · have hdata := Region.unitLength_le_two (hstrings region hregion) unit.address
    omega
  · have hle : unit.bytes.length ≤ max processor.maxLength 2 :=
      Decoder.length_taken_le hset (Registry.wellFormed_of_mem hprocessor) hscan
    omega

/-! ## 4. Listings -/

/-- A run that ended between two units does without a stop what it did with one. -/
theorem trace_of_complete {bytes : List UInt8} {stopAfter : Option Nat} {summary : Summary}
    (hrun : (d.run (.ofBytes bytes) stopAfter).result = .ok summary)
    (hend : summary.outcome = .complete) :
    d.trace (.ofBytes bytes) stopAfter = d.trace (.ofBytes bytes) := by
  refine trace_of_not_interrupted hrun ?_
  rw [hend]
  decide

/-- A run that ended between two units has shown its whole input. -/
theorem bytes_of_complete {bytes : List UInt8} {stopAfter : Option Nat} {summary : Summary}
    (hrun : (d.run (.ofBytes bytes) stopAfter).result = .ok summary)
    (hend : summary.outcome = .complete) :
    bytes = ((d.trace (.ofBytes bytes)).emitted.map (·.bytes)).flatten := by
  have hresult : (d.run (.ofBytes bytes)).result = .ok summary := by
    have htrace := trace_of_complete hrun hend
    rw [result_run] at hrun ⊢
    rw [← htrace]
    exact hrun
  obtain ⟨rest, haccounts, hrest, -⟩ := emitted_accounts hresult
  have hbytes := haccounts.bytes_eq
  rw [hrest hend, List.append_nil, List.flatMap_def] at hbytes
  exact hbytes

/-- **Where the text of a run tells the bytes of its units, it tells the input**, if that ended
    between two units: the text is the same for the same input and for no other. -/
theorem text_eq_iff_of_complete {bytes others : List UInt8} {stopAfter stopAfter' : Option Nat}
    {summary summary' : Summary}
    (hrun : (d.run (.ofBytes bytes) stopAfter).result = .ok summary)
    (hend : summary.outcome = .complete)
    (hrun' : (d.run (.ofBytes others) stopAfter').result = .ok summary')
    (hend' : summary'.outcome = .complete)
    (htells : (d.run (.ofBytes bytes)).text = (d.run (.ofBytes others)).text →
      (d.trace (.ofBytes bytes)).emitted.map (·.bytes) =
        (d.trace (.ofBytes others)).emitted.map (·.bytes)) :
    (d.run (.ofBytes bytes) stopAfter).text = (d.run (.ofBytes others) stopAfter').text ↔
      bytes = others := by
  have htext : (d.run (.ofBytes bytes) stopAfter).text = (d.run (.ofBytes bytes)).text := by
    rw [text_run, text_run, trace_of_complete hrun hend]
  have htext' : (d.run (.ofBytes others) stopAfter').text = (d.run (.ofBytes others)).text := by
    rw [text_run, text_run, trace_of_complete hrun' hend']
  rw [htext, htext']
  constructor
  · intro hsame
    rw [bytes_of_complete hrun hend, htells hsame, ← bytes_of_complete hrun' hend']
  · rintro rfl
    rfl

/-- **The units of a listing can be read back**: their addresses and all of their bytes. -/
theorem readListing?_run (hprocessor : processor ∈ Registry.processors)
    (hset : d.instructions = processor.instructionSet) (hlisting : d.listing = true)
    (hlabels : d.labels = .empty) (hstrings : ∀ region ∈ d.regions, region.kind ≠ .string)
    (source : Source) (stopAfter : Option Nat) :
    readListing? processor.maxLength (d.run source stopAfter).text =
      some ((d.trace source stopAfter).emitted.map fun unit => (unit.address, unit.bytes)) := by
  have hroom : d.layout.shownBytes = processor.maxLength := by
    have htwo := Registry.two_le_maxLength_of_mem hprocessor
    show max d.instructions.maxLength 1 = _
    rw [hset]
    show max processor.maxLength 1 = _
    omega
  have hlines : ∀ unit ∈ (d.trace source stopAfter).emitted,
      readMargin? processor.maxLength (d.layout.line unit).toList =
        some (unit.address, unit.bytes) := by
    intro unit hunit
    rw [emitted_of_no_strings hstrings] at hunit
    have hfits := length_bytes_le_of_settles (settles_of_mem_units hunit) hprocessor hset hstrings
    rw [← hroom] at hfits ⊢
    exact Layout.readMargin?_line hlisting hfits
  rw [readListing?, unitTexts_run_of_no_strings hset (Registry.oneLine_of_mem hprocessor) hlabels
    hstrings]
  exact mapM_map_eq_some hlines

/-- **A listing without strings and labels is a record of its units**: their addresses and all of
    their bytes can be read back from the text. Where the input ended between two units the text is
    a record of the input, and is the same for no other input. -/
theorem listing_records_units (hprocessor : processor ∈ Registry.processors)
    (hset : d.instructions = processor.instructionSet) (hlisting : d.listing = true)
    (hlabels : d.labels = .empty) (hstrings : ∀ region ∈ d.regions, region.kind ≠ .string) :
    (∀ source stopAfter,
      readListing? processor.maxLength (d.run source stopAfter).text =
        some ((d.trace source stopAfter).emitted.map fun unit => (unit.address, unit.bytes))) ∧
    ∀ bytes others stopAfter stopAfter' summary summary',
      (d.run (.ofBytes bytes) stopAfter).result = .ok summary → summary.outcome = .complete →
      (d.run (.ofBytes others) stopAfter').result = .ok summary' → summary'.outcome = .complete →
      ((d.run (.ofBytes bytes) stopAfter).text = (d.run (.ofBytes others) stopAfter').text ↔
        bytes = others) := by
  have hread := readListing?_run hprocessor hset hlisting hlabels hstrings
  refine ⟨hread, fun bytes others stopAfter stopAfter' summary summary' hrun hend hrun' hend' => ?_⟩
  refine text_eq_iff_of_complete hrun hend hrun' hend' fun htext => ?_
  have hshown := hread (.ofBytes bytes) none
  rw [htext, hread (.ofBytes others) none] at hshown
  have hbytes := congrArg (List.map Prod.snd) (Option.some.inj hshown)
  rw [List.map_map, List.map_map] at hbytes
  exact hbytes.symm

/-- A 6809 at the top of the address space, with a word of data at `$0002`. -/
def wrappedWord : Disassembler :=
  { ofProcessor Motorola6809.processor { start := 0xFFFE } with
    regions := [⟨2, 3, .wordBigEndian⟩] }

/-- An instruction of four bytes, the first of them a lead-in byte, and the word. Both are read
    back, and another operand makes another text. -/
theorem listing_records_units_wrapped :
    let bytes : List UInt8 := [0x10, 0x8E, 0xBE, 0xEF, 0x12, 0x34]
    let others : List UInt8 := [0x10, 0x8E, 0xBE, 0xEE, 0x12, 0x34]
    let summary : Summary := { outcome := .complete, finalAddress := 4, lines := 2 }
    (wrappedWord.run (.ofBytes bytes)).result = .ok summary ∧
    (wrappedWord.run (.ofBytes others)).result = .ok summary ∧
    readListing? 4 (wrappedWord.run (.ofBytes bytes)).text =
      some [(0xFFFE, [0x10, 0x8E, 0xBE, 0xEF]), (0x0002, [0x12, 0x34])] ∧
    (wrappedWord.run (.ofBytes bytes)).text ≠ (wrappedWord.run (.ofBytes others)).text := by
  intro bytes others summary
  let word : Line := ⟨2, [0x12, 0x34], .directive ".dw" "$1234"⟩
  have htrace : wrappedWord.trace (.ofBytes bytes) =
      { units := [⟨0xFFFE, [0x10, 0x8E, 0xBE, 0xEF], .instruction "ldy" "#$BEEF"⟩, word]
        ending := .complete
        cursor := 4 } := by decide +kernel
  have hother : wrappedWord.trace (.ofBytes others) =
      { units := [⟨0xFFFE, [0x10, 0x8E, 0xBE, 0xEE], .instruction "ldy" "#$BEEE"⟩, word]
        ending := .complete
        cursor := 4 } := by decide +kernel
  have hrun : (wrappedWord.run (.ofBytes bytes)).result = .ok summary := by
    rw [result_run, htrace]
    rfl
  have hrun' : (wrappedWord.run (.ofBytes others)).result = .ok summary := by
    rw [result_run, hother]
    rfl
  have hregistered : Motorola6809.processor ∈ Registry.processors := by
    simp only [Registry.processors, List.mem_cons, or_true, true_or]
  have hstrings : ∀ region ∈ wrappedWord.regions, region.kind ≠ .string := by
    intro region hregion
    cases List.mem_singleton.mp hregion
    decide
  have hset : wrappedWord.instructions = Motorola6809.processor.instructionSet := rfl
  obtain ⟨hread, hinput⟩ := listing_records_units hregistered hset rfl rfl hstrings
  have hunits := hread (.ofBytes bytes) none
  rw [htrace] at hunits
  have htext := hinput bytes others none none summary summary hrun rfl hrun' rfl
  exact ⟨hrun, hrun', hunits, mt htext.mp (by decide)⟩

end Disassembler

end Disassembly
