import Disassembly.Address.Field
import Disassembly.Proofs.Numerals
import Disassembly.Proofs.Separation

/-!
# What an address field says

A field of a definition file is hexadecimal. Blanks around it and a mark in front say nothing; what
remains is a numeral, and its value must be an address. `FieldSays` gives the answer of a field for
every text it may hold, an address or the words that tell why it is none, from the theory of
numerals alone; a field has exactly that answer (`ofField_says`).

There are two limits. Up to the first character that is no digit the value must stay below `2 ^ 32`,
and what passes it there is too large; the value of a whole numeral must be at most 65535, and what
passes that is outside the address space.
-/

namespace Disassembly

namespace Address

/-! ## 1. Marks -/

/-- The marks of a hexadecimal numeral. -/
def hexMarks : List (List Char) := ["0x".toList, "0X".toList, "$".toList]

/-- `Unmarks text numeral`: the text without its mark, one only, or as it is if it has none. -/
inductive Unmarks : List Char → List Char → Prop
  | marked (mark numeral : List Char) (h : mark ∈ hexMarks) : Unmarks (mark ++ numeral) numeral
  | bare {numeral : List Char} (h : ∀ mark ∈ hexMarks, ¬ mark <+: numeral) :
      Unmarks numeral numeral

variable {text numeral : List Char}

theorem Unmarks.dropHexMark_eq (h : Unmarks text numeral) : dropHexMark text = numeral := by
  cases h with
  | marked _ _ h =>
    simp only [hexMarks, List.mem_cons, List.not_mem_nil, or_false] at h
    rcases h with rfl | rfl | rfl
    · rfl
    · rfl
    · rfl
  | bare h =>
    unfold dropHexMark
    split
    · exact absurd ⟨_, rfl⟩ (h "0x".toList (by decide))
    · exact absurd ⟨_, rfl⟩ (h "0X".toList (by decide))
    · exact absurd ⟨_, rfl⟩ (h "$".toList (by decide))
    · rfl

theorem unmarks_dropHexMark (text : List Char) : Unmarks text (dropHexMark text) := by
  unfold dropHexMark
  split
  · exact .marked "0x".toList _ (by decide)
  · exact .marked "0X".toList _ (by decide)
  · exact .marked "$".toList _ (by decide)
  · rename_i hlower hupper hdollar
    refine .bare fun mark hmark => ?_
    simp only [hexMarks, List.mem_cons, List.not_mem_nil, or_false] at hmark
    rintro ⟨numeral, rfl⟩
    rcases hmark with rfl | rfl | rfl
    · exact hlower numeral rfl
    · exact hupper numeral rfl
    · exact hdollar numeral rfl

/-- **A text has one mark or none**, and it is the one that is dropped. -/
theorem unmarks_iff : Unmarks text numeral ↔ dropHexMark text = numeral :=
  ⟨Unmarks.dropHexMark_eq, fun h => h ▸ unmarks_dropHexMark text⟩

/-! ## 2. Answers -/

/-- The words for a text that is no hexadecimal numeral. -/
def notHex (text : List Char) (cause : String) : String :=
  "'" ++ String.ofList text ++ "' is not a hex address: " ++ cause

/-- `FieldSays text numeral answer`: the answer of a field that is `text` without the blanks around
    it, and `numeral` without its mark. One plus sign may stand in front of the digits. -/
inductive FieldSays (text numeral : List Char) : Except String Address → Prop
  | address {n : Nat} (hne : Text.unsigned numeral ≠ [])
      (h : Text.Spells 16 (Text.unsigned numeral) n) (hle : n ≤ 65535) :
      FieldSays text numeral (.ok (UInt16.ofNat n))
  | empty (h : numeral = []) :
      FieldSays text numeral (.error (notHex text "cannot parse integer from empty string"))
  | sign (h : numeral = ['+'] ∨ numeral = ['-']) :
      FieldSays text numeral (.error (notHex text "invalid digit found in string"))
  | invalidDigit {front behind : List Char} {c : Char} {n : Nat}
      (h : Text.unsigned numeral = front ++ c :: behind) (hfront : Text.Spells 16 front n)
      (hlt : n < 2 ^ 32) (hc : ∀ value, ¬ Text.Denotes 16 c value) :
      FieldSays text numeral (.error (notHex text "invalid digit found in string"))
  | tooLarge {front behind : List Char} {n : Nat}
      (h : Text.unsigned numeral = front ++ behind) (hfront : Text.Spells 16 front n)
      (hle : 2 ^ 32 ≤ n) :
      FieldSays text numeral (.error (notHex text "number too large to fit in target type"))
  | outside {n : Nat} {digits : List Char} (h : Text.Spells 16 (Text.unsigned numeral) n)
      (hover : 65535 < n) (hlt : n < 2 ^ 32) (hdigits : Text.UpperNumeral digits n) :
      FieldSays text numeral
        (.error ("address $" ++ String.ofList digits ++ " is outside $0000-$FFFF"))

variable {field : List Char} {answer : Except String Address}

theorem ofField_of_error {cause : Text.NumeralError}
    (h : Text.readNumeral 16 UInt32.size (dropHexMark (Text.trim field)) = .error cause) :
    ofField field = .error (.notHex (String.ofList (Text.trim field)) cause) := by
  unfold ofField
  dsimp only
  rw [h]

theorem ofField_of_ok {n : Nat}
    (h : Text.readNumeral 16 UInt32.size (dropHexMark (Text.trim field)) = .ok n) :
    ofField field = if n < 65536 then .ok (UInt16.ofNat n) else .error (.outOfRange n) := by
  unfold ofField
  dsimp only
  rw [h]

/-- The address space ends where the words for an address outside it say. -/
theorem message_outOfRange {n : Nat} {digits : List Char} (hn : 0 < n)
    (hdigits : Text.UpperNumeral digits n) :
    (AddressError.outOfRange n).message =
      "address $" ++ String.ofList digits ++ " is outside $0000-$FFFF" := by
  rw [AddressError.message, Text.number_one hn, (Text.upperNumeral_iff hn).mp hdigits]

/-- What is said of a field is what reading its numeral answers. -/
theorem FieldSays.of_readNumeral :
    FieldSays (Text.trim field) (dropHexMark (Text.trim field))
      ((ofField field).mapError AddressError.message) := by
  cases hread : Text.readNumeral 16 UInt32.size (dropHexMark (Text.trim field)) with
  | error cause =>
    rw [ofField_of_error hread]
    cases (Text.readNumeral_eq_iff (by decide)).mp hread with
    | empty h => exact .empty h
    | sign h => exact .sign (.inl h)
    | row _ h =>
      cases h with
      | invalidDigit h hfront hlt hc => exact .invalidDigit h hfront hlt hc
      | tooLarge h hfront hle => exact .tooLarge h hfront hle
  | ok n =>
    rw [ofField_of_ok hread]
    cases (Text.readNumeral_eq_iff (by decide)).mp hread with
    | row hne h =>
      cases h with
      | value h hlt =>
        by_cases hspace : n < 65536
        · rw [if_pos hspace]
          exact .address hne h (Nat.le_of_lt_succ hspace)
        · rw [if_neg hspace]
          have hover : 65535 < n := by omega
          have hdigits := Text.upperNumeral_digits n (by omega)
          show FieldSays _ _ (.error (AddressError.outOfRange n).message)
          rw [message_outOfRange (by omega) hdigits]
          exact .outside h hover hlt hdigits

/-- A minus sign is no digit. -/
theorem not_denotes_minus : ∀ value, ¬ Text.Denotes 16 '-' value :=
  Text.digitValue?_eq_none_iff.mp (by decide)

/-- Where digits are read as something else than zero, the numeral is read so. -/
theorem readNumeral_of_rowReads {answer : Except Text.NumeralError Nat}
    (h : Text.RowReads 16 UInt32.size (Text.unsigned numeral) answer) (hanswer : answer ≠ .ok 0) :
    Text.readNumeral 16 UInt32.size numeral = answer :=
  (Text.readNumeral_eq_iff (by decide)).mpr (.row (h.ne_nil (by decide) hanswer) h)

/-- Reading a numeral answers what is said of its field. -/
theorem FieldSays.eq (h : FieldSays (Text.trim field) (dropHexMark (Text.trim field)) answer) :
    (ofField field).mapError AddressError.message = answer := by
  have hlimit : 0 < UInt32.size := by decide
  cases h with
  | @address n hne h hle =>
    have hlt : n < UInt32.size := Nat.lt_of_le_of_lt hle (by decide)
    rw [ofField_of_ok ((Text.readNumeral_eq_iff hlimit).mpr (.row hne (.value h hlt))),
      if_pos (Nat.lt_succ_of_le hle)]
    rfl
  | empty h =>
    rw [ofField_of_error ((Text.readNumeral_eq_iff hlimit).mpr (.empty h))]
    rfl
  | sign h =>
    rcases h with h | h
    · rw [ofField_of_error ((Text.readNumeral_eq_iff hlimit).mpr (.sign h))]
      rfl
    · have hrow : Text.unsigned (dropHexMark (Text.trim field)) = [] ++ '-' :: [] := by
        rw [h]
        rfl
      rw [ofField_of_error (readNumeral_of_rowReads
        (.invalidDigit hrow (Text.spells_nil 16) hlimit not_denotes_minus) nofun)]
      rfl
  | invalidDigit h hfront hlt hc =>
    rw [ofField_of_error (readNumeral_of_rowReads (.invalidDigit h hfront hlt hc) nofun)]
    rfl
  | tooLarge h hfront hle =>
    rw [ofField_of_error (readNumeral_of_rowReads (.tooLarge h hfront hle) nofun)]
    rfl
  | @outside n digits h hover hlt hdigits =>
    have hzero : (Except.ok n : Except Text.NumeralError Nat) ≠ .ok 0 := by
      rw [ne_eq, Except.ok.injEq]
      omega
    rw [ofField_of_ok (readNumeral_of_rowReads (.value h hlt) hzero), if_neg (by omega)]
    exact congrArg Except.error (message_outOfRange (by omega) hdigits)

/-- **A field of a definition file is an address exactly if it spells one**: without the blanks
    around it and without a mark, and without a plus sign in front, it is digits of either case, at
    least one and any number of zeros among them, with a value of at most 65535. Any other field is
    refused in the words that its numeral calls for: nothing there, a first fault that is a
    character and no digit, digits that pass 32 bits before any such character, or a value outside
    the address space. -/
theorem ofField_says (field : List Char) (answer : Except String Address) :
    (ofField field).mapError AddressError.message = answer ↔
      ∃ text numeral, Text.Trims field text ∧ Unmarks text numeral ∧
        FieldSays text numeral answer := by
  constructor
  · rintro rfl
    exact ⟨_, _, Text.trims_trim field, unmarks_dropHexMark _, .of_readNumeral⟩
  · rintro ⟨text, numeral, htrims, hunmarks, hsays⟩
    obtain rfl := Text.trims_iff.mp htrims
    obtain rfl := unmarks_iff.mp hunmarks
    exact hsays.eq

end Address

end Disassembly
