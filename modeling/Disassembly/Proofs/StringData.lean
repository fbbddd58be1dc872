import Disassembly.Proofs.Digits
import Disassembly.Proofs.Scan

/-!
# Strings of data read back

A string of data is shown with its printable bytes as they are and the others as escapes. The
backslash is printable, so bytes of the input may spell an escape themselves (`spelling`,
`SpellsEscape`), and then their text is that of the byte which the escape names. This file fixes

* `unescape`, which takes every escape for the byte it names and every other character for its own
  byte; it answers bytes that are shown as the text it was given (`escaped_unescape`);
* `unescape_escaped_iff`: it gives back the bytes that were shown exactly where these spell no
  escape. So the value of a string tells its bytes unless they spell one, and where they do it may
  not.
-/

namespace Disassembly

namespace Text

/-! ## 1. The text of a string -/

/-- The characters between the quotes of a string of data. -/
def escaped (bytes : List UInt8) : List Char := bytes.flatMap fun b => (escape b).toList

@[simp] theorem escaped_nil : escaped [] = [] := rfl

@[simp] theorem escaped_cons (b : UInt8) (bytes : List UInt8) :
    escaped (b :: bytes) = (escape b).toList ++ escaped bytes := List.flatMap_cons

theorem escaped_append (bytes others : List UInt8) :
    escaped (bytes ++ others) = escaped bytes ++ escaped others := List.flatMap_append

theorem toList_quote (bytes : List UInt8) :
    (quote bytes).toList = "'".toList ++ escaped bytes ++ "'".toList := by
  simp [quote, escaped, String.toList_append, String.toList_join, List.flatMap_map]

theorem toNat_character (b : UInt8) : (character b).toNat = b.toNat := by
  have hb := b.toNat_lt
  have hvalid : b.toNat.isValidChar := Or.inl (by omega)
  rw [character, Char.ofNat, dif_pos hvalid]
  rfl

theorem ofNat_toNat_character (b : UInt8) : UInt8.ofNat (character b).toNat = b := by
  rw [toNat_character, UInt8.ofNat_toNat]

/-- A printable byte is shown as its character. -/
theorem toList_escape_of_printable {b : UInt8} (h : isPrintable b = true) :
    (escape b).toList = [character b] := by
  rw [escape, if_pos h, String.toList_ofList]

/-- Any other byte is shown as an escape of four characters. -/
theorem toList_escape_of_not_printable {b : UInt8} (h : isPrintable b = false) :
    (escape b).toList = '\\' :: 'x' :: (Hex.lowerByte b).toList := by
  rw [escape, if_neg (Bool.eq_false_iff.mp h), String.toList_append]
  rfl

/-! ## 2. Reading it back -/

/-- The byte that two digits name in an escape: one that is not printable, and that is written with
    just these digits. -/
def namedByte? (high low : Char) : Option UInt8 :=
  ((Hex.value? [high, low]).map UInt8.ofNat).filter fun b =>
    !isPrintable b && (Hex.lowerByte b).toList = [high, low]

/-- The byte that an escape at the front of a text names, and what stands behind the escape. -/
def leadingEscape? : List Char → Option (UInt8 × List Char)
  | '\\' :: 'x' :: high :: low :: rest => (namedByte? high low).map fun b => (b, rest)
  | _ => none

theorem namedByte?_eq_some_iff {high low : Char} {b : UInt8} :
    namedByte? high low = some b ↔
      isPrintable b = false ∧ (Hex.lowerByte b).toList = [high, low] := by
  unfold namedByte?
  rw [Option.filter_eq_some_iff]
  constructor
  · rintro ⟨-, hb⟩
    simpa using hb
  · rintro ⟨hb, hdigits⟩
    refine ⟨?_, by simp [hb, hdigits]⟩
    rw [← hdigits, Hex.value?_lowerByte, Option.map_some, UInt8.ofNat_toNat]

theorem leadingEscape?_eq_some_iff {text rest : List Char} {b : UInt8} :
    leadingEscape? text = some (b, rest) ↔
      isPrintable b = false ∧ text = (escape b).toList ++ rest := by
  constructor
  · intro h
    unfold leadingEscape? at h
    split at h
    · rename_i high low behind
      obtain ⟨named, hnamed, heq⟩ := Option.map_eq_some_iff.mp h
      cases heq
      obtain ⟨hb, hdigits⟩ := namedByte?_eq_some_iff.mp hnamed
      refine ⟨hb, ?_⟩
      rw [toList_escape_of_not_printable hb, hdigits]
      rfl
    · cases h
  · rintro ⟨hb, rfl⟩
    rw [toList_escape_of_not_printable hb]
    have hdigits : (Hex.lowerByte b).toList =
        [Hex.lowerDigit (b.toNat / 16), Hex.lowerDigit (b.toNat % 16)] := String.toList_ofList
    have hnamed := namedByte?_eq_some_iff.mpr ⟨hb, hdigits⟩
    rw [hdigits]
    simp [leadingEscape?, hnamed]

theorem length_lt_of_leadingEscape? {text rest : List Char} {b : UInt8}
    (h : leadingEscape? text = some (b, rest)) : rest.length < text.length := by
  obtain ⟨hb, rfl⟩ := leadingEscape?_eq_some_iff.mp h
  rw [toList_escape_of_not_printable hb]
  simp
  omega

/-- Reads the inside of a string of data back: an escape as the byte it names, any other character
    as its own byte. -/
def unescape : List Char → List UInt8
  | [] => []
  | c :: others =>
    match _h : leadingEscape? (c :: others) with
    | some (b, rest) => b :: unescape rest
    | none => UInt8.ofNat c.toNat :: unescape others
termination_by text => text.length
decreasing_by
  · exact length_lt_of_leadingEscape? _h
  · simp

theorem unescape_of_escape {b : UInt8} (h : isPrintable b = false) (rest : List Char) :
    unescape ((escape b).toList ++ rest) = b :: unescape rest := by
  have hlead : leadingEscape? ((escape b).toList ++ rest) = some (b, rest) :=
    leadingEscape?_eq_some_iff.mpr ⟨h, rfl⟩
  rw [toList_escape_of_not_printable h, List.cons_append] at hlead ⊢
  rw [unescape]
  split
  · rename_i other behind hother
    cases hlead.symm.trans hother
    rfl
  · rename_i hnone
    cases hlead.symm.trans hnone

theorem unescape_of_none {c : Char} {others : List Char} (h : leadingEscape? (c :: others) = none) :
    unescape (c :: others) = UInt8.ofNat c.toNat :: unescape others := by
  rw [unescape]
  split
  · rename_i hsome
    cases h.symm.trans hsome
  · rfl

/-! ## 3. Texts of printable characters -/

/-- Printable characters of ASCII are the only ones in a text. -/
def IsPlain (text : List Char) : Prop := ∀ c ∈ text, 0x20 ≤ c.toNat ∧ c.toNat ≤ 0x7E

/-- Such a character is what its byte is shown as. -/
theorem toList_escape_ofNat {c : Char} (hlow : 0x20 ≤ c.toNat) (hhigh : c.toNat ≤ 0x7E) :
    (escape (UInt8.ofNat c.toNat)).toList = [c] := by
  have hnat : (UInt8.ofNat c.toNat).toNat = c.toNat :=
    UInt8.toNat_ofNat_of_lt' (by rw [UInt8.size]; omega)
  have hprintable : isPrintable (UInt8.ofNat c.toNat) = true := by
    simp [isPrintable, UInt8.le_iff_toNat_le, hnat, hlow, hhigh]
  rw [toList_escape_of_printable hprintable, character, hnat, Char.ofNat_toNat]

theorem toNat_lowerDigit : ∀ n < 16, 0x20 ≤ (Hex.lowerDigit n).toNat ∧
    (Hex.lowerDigit n).toNat ≤ 0x7E := by decide

theorem isPlain_escape (b : UInt8) : IsPlain (escape b).toList := by
  intro c hc
  cases hb : isPrintable b with
  | true =>
    rw [toList_escape_of_printable hb, List.mem_singleton] at hc
    rw [hc, toNat_character]
    simpa [isPrintable, UInt8.le_iff_toNat_le] using hb
  | false =>
    have hlt := b.toNat_lt
    rw [toList_escape_of_not_printable hb, Hex.lowerByte, String.toList_ofList] at hc
    simp only [List.mem_cons, List.not_mem_nil, or_false] at hc
    rcases hc with rfl | rfl | rfl | rfl
    · decide
    · decide
    · exact toNat_lowerDigit _ (by omega)
    · exact toNat_lowerDigit _ (by omega)

theorem isPlain_escaped (bytes : List UInt8) : IsPlain (escaped bytes) := by
  intro c hc
  obtain ⟨b, -, hc⟩ := List.mem_flatMap.mp hc
  exact isPlain_escape b c hc

/-- The bytes of a text of printable characters are shown as that text. -/
theorem escaped_map {text : List Char} (h : IsPlain text) :
    escaped (text.map fun c => UInt8.ofNat c.toNat) = text := by
  induction text with
  | nil => rfl
  | cons c text ih =>
    obtain ⟨hlow, hhigh⟩ := h c List.mem_cons_self
    have htext : IsPlain text := fun c hc => h c (List.mem_cons_of_mem _ hc)
    rw [List.map_cons, escaped_cons, toList_escape_ofNat hlow hhigh, ih htext]
    rfl

/-- **Reading back answers bytes with the text that was read**, whatever text it was. -/
theorem escaped_unescape {text : List Char} (h : IsPlain text) :
    escaped (unescape text) = text := by
  induction hn : text.length using Nat.strongRecOn generalizing text with
  | _ n ih =>
    subst hn
    cases text with
    | nil =>
      rw [unescape]
      rfl
    | cons c others =>
      cases hlead : leadingEscape? (c :: others) with
      | some found =>
        obtain ⟨b, rest⟩ := found
        have hlt := length_lt_of_leadingEscape? hlead
        obtain ⟨hb, htext⟩ := leadingEscape?_eq_some_iff.mp hlead
        rw [htext] at h
        have hrest : IsPlain rest := fun c hc => h c (List.mem_append_right _ hc)
        rw [htext, unescape_of_escape hb, escaped_cons, ih _ hlt hrest rfl]
      | none =>
        obtain ⟨hlow, hhigh⟩ := h c List.mem_cons_self
        have hothers : IsPlain others := fun c hc => h c (List.mem_cons_of_mem _ hc)
        rw [unescape_of_none hlead, escaped_cons, toList_escape_ofNat hlow hhigh,
          ih _ (Nat.lt_succ_self _) hothers rfl]
        rfl

/-! ## 4. Bytes that spell an escape -/

/-- The bytes that spell the escape of a byte. -/
def spelling (b : UInt8) : List UInt8 := (escape b).toList.map fun c => UInt8.ofNat c.toNat

/-- Some of the bytes, one after another, spell the escape of a byte that is not printable. -/
def SpellsEscape (bytes : List UInt8) : Prop :=
  ∃ front b rest, isPrintable b = false ∧ bytes = front ++ spelling b ++ rest

theorem escaped_spelling (b : UInt8) : escaped (spelling b) = (escape b).toList :=
  escaped_map (isPlain_escape b)

/-- A byte that is not printable has an escape of four characters. -/
theorem length_spelling {b : UInt8} (h : isPrintable b = false) : (spelling b).length = 4 := by
  rw [spelling, List.length_map, toList_escape_of_not_printable h, Hex.lowerByte,
    String.toList_ofList]
  rfl

/-- Only a backslash opens an escape, so characters without one stand for their own bytes. -/
theorem eq_of_escaped_eq_append {bytes : List UInt8} {front text : List Char}
    (h : escaped bytes = front ++ text) (hfront : '\\' ∉ front) :
    ∃ rest, bytes = (front.map fun c => UInt8.ofNat c.toNat) ++ rest ∧ escaped rest = text := by
  induction front generalizing bytes with
  | nil => exact ⟨bytes, rfl, h⟩
  | cons c front ih =>
    cases bytes with
    | nil => cases h
    | cons b bytes =>
      cases hb : isPrintable b with
      | true =>
        rw [escaped_cons, toList_escape_of_printable hb] at h
        obtain ⟨rfl, htail⟩ := List.cons.inj h
        obtain ⟨rest, rfl, hrest⟩ := ih htail fun hmem => hfront (List.mem_cons_of_mem _ hmem)
        refine ⟨rest, ?_, hrest⟩
        rw [List.map_cons, ofNat_toNat_character, List.cons_append]
      | false =>
        rw [escaped_cons, toList_escape_of_not_printable hb] at h
        obtain ⟨rfl, -⟩ := List.cons.inj h
        exact absurd List.mem_cons_self hfront

/-- An escape that the text of a printable byte opens has been spelled by the bytes. -/
theorem eq_of_leadingEscape?_escaped {first b : UInt8} {others : List UInt8} {text : List Char}
    (hfirst : isPrintable first = true)
    (h : leadingEscape? (escaped (first :: others)) = some (b, text)) :
    ∃ rest, first :: others = spelling b ++ rest ∧ escaped rest = text := by
  obtain ⟨hb, htext⟩ := leadingEscape?_eq_some_iff.mp h
  rw [escaped_cons, toList_escape_of_printable hfirst, toList_escape_of_not_printable hb,
    List.cons_append] at htext
  obtain ⟨hchar, htail⟩ := List.cons.inj htext
  have hdigits : '\\' ∉ 'x' :: (Hex.lowerByte b).toList := by
    intro hmem
    have hlt := b.toNat_lt
    have hne : ∀ n < 16, Hex.lowerDigit n ≠ '\\' := by decide
    simp only [Hex.lowerByte, String.toList_ofList, List.mem_cons, List.not_mem_nil,
      or_false] at hmem
    rcases hmem with hmem | hmem | hmem
    · exact absurd hmem (by decide)
    · exact hne _ (by omega) hmem.symm
    · exact hne _ (by omega) hmem.symm
  obtain ⟨rest, hothers, hrest⟩ := eq_of_escaped_eq_append htail hdigits
  refine ⟨rest, ?_, hrest⟩
  rw [spelling, toList_escape_of_not_printable hb, List.map_cons, ← hchar, ofNat_toNat_character,
    List.cons_append, hothers]

/-- Reading the text of bytes back gives their first byte, or the byte whose escape they spell. -/
theorem unescape_escaped_cons (first : UInt8) (others : List UInt8) :
    unescape (escaped (first :: others)) = first :: unescape (escaped others) ∨
    ∃ b rest, isPrintable b = false ∧ first :: others = spelling b ++ rest ∧
      unescape (escaped (first :: others)) = b :: unescape (escaped rest) := by
  cases hfirst : isPrintable first with
  | false => exact Or.inl (unescape_of_escape hfirst _)
  | true =>
    cases hlead : leadingEscape? (escaped (first :: others)) with
    | some found =>
      obtain ⟨b, text⟩ := found
      obtain ⟨hb, htext⟩ := leadingEscape?_eq_some_iff.mp hlead
      obtain ⟨rest, hbytes, rfl⟩ := eq_of_leadingEscape?_escaped hfirst hlead
      refine Or.inr ⟨b, rest, hb, hbytes, ?_⟩
      rw [htext, unescape_of_escape hb]
    | none =>
      rw [escaped_cons, toList_escape_of_printable hfirst, List.singleton_append] at hlead ⊢
      rw [unescape_of_none hlead, ofNat_toNat_character]
      exact Or.inl rfl

theorem length_unescape_escaped_le (bytes : List UInt8) :
    (unescape (escaped bytes)).length ≤ bytes.length := by
  induction hn : bytes.length using Nat.strongRecOn generalizing bytes with
  | _ n ih =>
    subst hn
    cases bytes with
    | nil => simp [unescape]
    | cons first others =>
      rcases unescape_escaped_cons first others with hread | ⟨b, rest, hb, hbytes, hread⟩
      · have hle := ih others.length (Nat.lt_succ_self _) others rfl
        rw [hread, List.length_cons, List.length_cons]
        omega
      · have hlength : (first :: others).length = 4 + rest.length := by
          rw [hbytes, List.length_append, length_spelling hb]
        have hle := ih rest.length (by omega) rest rfl
        rw [hread, List.length_cons, hlength]
        omega

/-- **Bytes are read back from their text exactly where they spell no escape.** -/
theorem unescape_escaped_iff {bytes : List UInt8} :
    unescape (escaped bytes) = bytes ↔ ¬ SpellsEscape bytes := by
  constructor
  · -- with the byte in place of its spelling the text is the same, and what is read back is shorter
    rintro hread ⟨front, b, rest, hb, rfl⟩
    have hsame : escaped (front ++ spelling b ++ rest) = escaped (front ++ b :: rest) := by
      rw [escaped_append, escaped_append, escaped_spelling, escaped_append, escaped_cons,
        List.append_assoc]
    have hle := length_unescape_escaped_le (front ++ b :: rest)
    rw [← hsame, hread] at hle
    simp only [List.length_append, List.length_cons, length_spelling hb] at hle
    omega
  · intro hspells
    induction bytes with
    | nil => simp [unescape]
    | cons first others ih =>
      rcases unescape_escaped_cons first others with hread | ⟨b, rest, hb, hbytes, -⟩
      · rw [hread, ih]
        rintro ⟨front, b, rest, hb, rfl⟩
        exact hspells ⟨first :: front, b, rest, hb, rfl⟩
      · exact absurd ⟨[], b, rest, hb, hbytes⟩ hspells

/-! ## 5. Values -/

/-- Reads the value of a string of data back, without its quotes. -/
def unquote (value : String) : List UInt8 := unescape (value.toList.drop 1).dropLast

theorem unquote_quote (bytes : List UInt8) : unquote (quote bytes) = unescape (escaped bytes) := by
  have hquote : "'".toList = [Char.ofNat 39] := by decide
  rw [unquote, toList_quote, hquote]
  simp

theorem quote_unquote_quote (bytes : List UInt8) : quote (unquote (quote bytes)) = quote bytes := by
  apply String.toList_injective
  rw [unquote_quote, toList_quote, toList_quote, escaped_unescape (isPlain_escaped bytes)]

/-- Bytes without a backslash spell no escape. -/
theorem not_spellsEscape_of_not_mem {bytes : List UInt8} (h : 0x5C ∉ bytes) :
    ¬ SpellsEscape bytes := by
  rintro ⟨front, b, rest, hb, rfl⟩
  have hmem : (0x5C : UInt8) ∈ spelling b := by
    rw [spelling, toList_escape_of_not_printable hb]
    exact List.mem_cons_self
  exact h (List.mem_append_left _ (List.mem_append_right _ hmem))

end Text

/-! ## 6. Units -/

namespace Region

/-- `region.Reads address source unit`: read at `address` the source gives `unit`, all of it, or as
    much of it as there was before the end of the data. -/
def Reads (region : Region) (address : Address) (source : Source) (unit : Line) : Prop :=
  (region.readUnit address source).1 = .line unit ∨
    (region.readUnit address source).1 = .truncated (some unit)

/-- The value of a string, all of it or a part, is the text of its bytes. -/
theorem Reads.body {region : Region} {address : Address} {source : Source} {unit : Line}
    (h : region.Reads address source unit) (hkind : region.kind = .string) :
    unit.body = .directive ".string" (Text.quote unit.bytes) := by
  unfold Reads readUnit at h
  cases hsupply : (source.take (region.unitLength address)).supply with
  | full =>
    simp only [hsupply, Reading.line.injEq, reduceCtorEq, or_false] at h
    rw [← h, hkind]
    rfl
  | short =>
    simp only [hsupply, reduceCtorEq, Reading.truncated.injEq, false_or, cutLine,
      Option.ite_none_right_eq_some, Option.some.injEq] at h
    rw [← h.2]
    rfl
  | fault detail => simp [hsupply] at h

/-- **The value of a string tells its bytes, unless these spell an escape.** Read back it gives
    bytes that have this value; they are the bytes of the unit exactly where these spell no escape,
    and so two strings whose bytes spell none have the same value only if they have the same
    bytes. -/
theorem string_value_determines_bytes {region region' : Region} {address address' : Address}
    {source source' : Source} {unit unit' : Line} (hkind : region.kind = .string)
    (hkind' : region'.kind = .string) (hread : region.Reads address source unit)
    (hread' : region'.Reads address' source' unit') :
    ∃ value value', unit.body = .directive ".string" value ∧
      unit'.body = .directive ".string" value' ∧
      Text.quote (Text.unquote value) = value ∧
      (Text.unquote value = unit.bytes ↔ ¬ Text.SpellsEscape unit.bytes) ∧
      (¬ Text.SpellsEscape unit.bytes → ¬ Text.SpellsEscape unit'.bytes → value = value' →
        unit.bytes = unit'.bytes) := by
  refine ⟨_, _, hread.body hkind, hread'.body hkind', Text.quote_unquote_quote _, ?_,
    fun hspells hspells' hvalue => ?_⟩
  · rw [Text.unquote_quote]
    exact Text.unescape_escaped_iff
  · have hback := Text.unescape_escaped_iff.mpr hspells
    have hback' := Text.unescape_escaped_iff.mpr hspells'
    rw [← Text.unquote_quote] at hback hback'
    rw [← hback, ← hback', hvalue]

/-- A whole string, and one of the same bytes that the data cuts short in a longer region: the
    value is the same, and gives back the bytes. -/
theorem string_value_determines_bytes_cut :
    let bytes : List UInt8 := [0x48, 0x49, 0x00, 0x21]
    let unit : Line := ⟨0x3000, bytes, .directive ".string" "'HI\\x00!'"⟩
    let region : Region := ⟨0x3000, 0x3003, .string⟩
    let longer : Region := ⟨0x3000, 0x3004, .string⟩
    region.Reads 0x3000 (.ofBytes (bytes ++ [0xEA])) unit ∧
    longer.Reads 0x3000 (.ofBytes bytes) unit ∧
    ¬ Text.SpellsEscape bytes ∧ Text.unquote "'HI\\x00!'" = bytes := by
  intro bytes unit region longer
  have hwhole : region.Reads 0x3000 (.ofBytes (bytes ++ [0xEA])) unit :=
    Or.inl (by decide +kernel)
  have hcut : longer.Reads 0x3000 (.ofBytes bytes) unit := Or.inr (by decide +kernel)
  have hspells : ¬ Text.SpellsEscape bytes :=
    Text.not_spellsEscape_of_not_mem (by decide)
  obtain ⟨value, value', hbody, -, -, hback, -⟩ :=
    string_value_determines_bytes rfl rfl hwhole hcut
  cases hbody
  exact ⟨hwhole, hcut, hspells, hback.mpr hspells⟩

/-- Four printable bytes and one that is not have the same value. -/
theorem string_value_ambiguous :
    ¬ ∀ (region region' : Region) (address address' : Address) (source source' : Source)
      (unit unit' : Line) (value : String), region.kind = .string → region'.kind = .string →
      region.Reads address source unit → region'.Reads address' source' unit' →
      unit.body = .directive ".string" value → unit'.body = .directive ".string" value →
      unit.bytes = unit'.bytes := by
  intro hdetermines
  let spelled : Line := ⟨0, [0x5C, 0x78, 0x30, 0x30], .directive ".string" "'\\x00'"⟩
  let named : Line := ⟨4, [0x00], .directive ".string" "'\\x00'"⟩
  have hspelled : Reads ⟨0, 3, .string⟩ 0 (.ofBytes spelled.bytes) spelled :=
    Or.inl (by decide +kernel)
  have hnamed : Reads ⟨4, 4, .string⟩ 4 (.ofBytes named.bytes) named := Or.inl (by decide +kernel)
  have hbytes := hdetermines _ _ _ _ _ _ _ _ _ rfl rfl hspelled hnamed rfl rfl
  exact absurd hbytes (by decide)

end Region

end Disassembly
