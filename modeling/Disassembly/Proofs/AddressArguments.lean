import Disassembly.Proofs.AddressFields

/-!
# What an address argument says

An address on the command line is a decimal numeral, or a hexadecimal one after `0x` or `0X`; a plus
sign may stand in front of the digits (`ArgumentSpells`). Any number of 64 bits is taken, and its
low sixteen bits are the address (`ofArgument_eq_ok_iff`). Whatever spells no such number is
refused: no blank, no `$` and no minus sign belongs to this spelling.

A field of a definition file is read by other rules, with another limit and with blanks around it.
Where a field with one of these two marks is an address, the same text is the same address as an
argument, unless there are blanks around it (`ofArgument_of_ofField`).
-/

namespace Disassembly

namespace Text

/-! ## 1. Numerals -/

/-- `Signed base text n`: the text is a row of digits for `n`, at least one, with a plus sign in
    front of them or none. -/
inductive Signed (base : Nat) : List Char → Nat → Prop
  | plain {row : List Char} {n : Nat} (hne : row ≠ []) (h : Spells base row n) : Signed base row n
  | plus {row : List Char} {n : Nat} (hne : row ≠ []) (h : Spells base row n) :
      Signed base ('+' :: row) n

variable {base limit n : Nat} {text : List Char} {c : Char}

theorem not_denotes_plus (base value : Nat) : ¬ Denotes base '+' value := by
  rintro ⟨-, hdigit | hdigit⟩
  · exact absurd (List.mem_of_getElem? hdigit) (by decide)
  · exact absurd (List.mem_of_getElem? hdigit) (by decide)

theorem signed_iff : Signed base text n ↔ unsigned text ≠ [] ∧ Spells base (unsigned text) n := by
  constructor
  · intro h
    cases h with
    | plus hne h => exact ⟨hne, h⟩
    | plain hne h =>
      -- a row of digits has no sign to drop
      have hunsigned : unsigned text = text := by
        unfold unsigned
        split
        · obtain ⟨value, hvalue⟩ := h.exists_denotes List.mem_cons_self
          exact absurd hvalue (not_denotes_plus base value)
        · rfl
      rw [hunsigned]
      exact ⟨hne, h⟩
  · unfold unsigned
    split
    · exact fun h => .plus h.1 h.2
    · exact fun h => .plain h.1 h.2

/-- **A numeral is read if it is digits with a value below the limit**, and then as this value. -/
theorem readNumeral_eq_ok_iff (hlimit : 0 < limit) :
    readNumeral base limit text = .ok n ↔ Signed base text n ∧ n < limit := by
  rw [readNumeral_eq_iff hlimit, signed_iff]
  constructor
  · rintro (_ | _ | ⟨hne, ⟨hspells, hlt⟩⟩)
    exact ⟨⟨hne, hspells⟩, hlt⟩
  · rintro ⟨⟨hne, hspells⟩, hlt⟩
    exact .row hne (.value hspells hlt)

/-- A numeral is made of digits and a plus sign. -/
theorem Signed.cases_of_mem (h : Signed base text n) (hc : c ∈ text) :
    c = '+' ∨ ∃ value, Denotes base c value := by
  cases h with
  | plain _ h => exact Or.inr (h.exists_denotes hc)
  | plus _ h => exact (List.mem_cons.mp hc).imp_right h.exists_denotes

/-- What is neither is no part of it. -/
theorem Signed.not_mem (h : Signed base text n) (hplus : c ≠ '+')
    (hnone : digitValue? base c = none) : c ∉ text := by
  intro hc
  rcases h.cases_of_mem hc with heq | ⟨value, hvalue⟩
  · exact hplus heq
  · exact digitValue?_eq_none_iff.mp hnone value hvalue

/-- The digits of a smaller base are digits of a larger one. -/
theorem Denotes.of_le {base' value : Nat} (h : Denotes base c value) (hle : base ≤ base') :
    Denotes base' c value :=
  ⟨Nat.lt_of_lt_of_le h.1 hle, h.2⟩

end Text

namespace Address

/-! ## 2. Arguments -/

/-- The marks of a hexadecimal argument. -/
def argumentMarks : List (List Char) := ["0x".toList, "0X".toList]

/-- `ArgumentSpells argument n`: the argument is the number, in base sixteen after one of two marks
    and in base ten without. -/
inductive ArgumentSpells : List Char → Nat → Prop
  | marked {mark numeral : List Char} {n : Nat} (hmark : mark ∈ argumentMarks)
      (h : Text.Signed 16 numeral n) : ArgumentSpells (mark ++ numeral) n
  | unmarked {numeral : List Char} {n : Nat} (h : Text.Signed 10 numeral n) :
      ArgumentSpells numeral n

variable {argument : List Char} {address : Address} {n : Nat} {c : Char}

theorem map_ofNat_eq_ok_iff {value : Except Text.NumeralError Nat} :
    value.map UInt16.ofNat = .ok address ↔ ∃ n, value = .ok n ∧ address.toNat = n % 65536 := by
  cases value with
  | error cause => exact iff_of_false nofun nofun
  | ok n =>
    show Except.ok (UInt16.ofNat n) = Except.ok address ↔ _
    rw [Except.ok.injEq, ← UInt16.toNat_inj, UInt16.toNat_ofNat', eq_comm]
    simp

/-- A number is an address if it has 64 bits, the one that its low sixteen bits are. -/
theorem readNumeral_map_eq_ok_iff {base : Nat} :
    (Text.readNumeral base UInt64.size argument).map UInt16.ofNat = .ok address ↔
      ∃ n, Text.Signed base argument n ∧ n < 2 ^ 64 ∧ address.toNat = n % 65536 := by
  rw [map_ofNat_eq_ok_iff]
  refine exists_congr fun n => ?_
  rw [Text.readNumeral_eq_ok_iff (by decide), and_assoc]
  exact Iff.rfl

/-- The letter of a mark is no decimal digit, so no decimal numeral begins with a mark. -/
theorem not_signed_of_mark {mark numeral : List Char} (hmark : mark ∈ argumentMarks) :
    ¬ Text.Signed 10 (mark ++ numeral) n := by
  intro h
  have hletter : ∀ mark ∈ argumentMarks, 'x' ∈ mark ∨ 'X' ∈ mark := by decide
  rcases hletter mark hmark with hx | hx
  · exact h.not_mem (by decide) (by decide) (List.mem_append_left numeral hx)
  · exact h.not_mem (by decide) (by decide) (List.mem_append_left numeral hx)

theorem argumentSpells_mark {mark numeral : List Char}
    (hmark : mark ∈ argumentMarks) :
    ArgumentSpells (mark ++ numeral) n ↔ Text.Signed 16 numeral n := by
  refine ⟨fun h => ?_, .marked hmark⟩
  generalize hargument : mark ++ numeral = argument at h
  cases h with
  | @marked other rest _ hother h =>
    -- the marks are of one length, so what follows them is the same
    have hlength : ∀ mark ∈ argumentMarks, mark.length = 2 := by decide
    obtain ⟨-, rfl⟩ := List.append_inj hargument ((hlength _ hmark).trans (hlength _ hother).symm)
    exact h
  | unmarked h =>
    rw [← hargument] at h
    exact absurd h (not_signed_of_mark hmark)

theorem argumentSpells_of_not_mark
    (hmark : ∀ mark ∈ argumentMarks, ¬ mark <+: argument) :
    ArgumentSpells argument n ↔ Text.Signed 10 argument n := by
  refine ⟨fun h => ?_, .unmarked⟩
  cases h with
  | marked hmem _ => exact absurd (List.prefix_append _ _) (hmark _ hmem)
  | unmarked h => exact h

/-- **An argument is taken if it spells a number of 64 bits**, as the address that the low sixteen
    bits of the number are. -/
theorem ofArgument_eq_ok_iff :
    ofArgument argument = .ok address ↔
      ∃ n, ArgumentSpells argument n ∧ n < 2 ^ 64 ∧ address.toNat = n % 65536 := by
  unfold ofArgument
  dsimp only
  split
  · rw [readNumeral_map_eq_ok_iff]
    have hmark : "0x".toList ∈ argumentMarks := by decide
    exact exists_congr fun n => and_congr_left' (argumentSpells_mark hmark).symm
  · rw [readNumeral_map_eq_ok_iff]
    have hmark : "0X".toList ∈ argumentMarks := by decide
    exact exists_congr fun n => and_congr_left' (argumentSpells_mark hmark).symm
  · rename_i hlower hupper
    have hmark : ∀ mark ∈ argumentMarks, ¬ mark <+: argument := by
      intro mark hmem
      simp only [argumentMarks, List.mem_cons, List.not_mem_nil, or_false] at hmem
      rintro ⟨digits, rfl⟩
      rcases hmem with rfl | rfl
      · exact hlower digits rfl
      · exact hupper digits rfl
    rw [readNumeral_map_eq_ok_iff]
    exact exists_congr fun n => and_congr_left' (argumentSpells_of_not_mark hmark).symm

/-- Whatever else is refused: what spells no number, and a number of more than 64 bits. -/
theorem ofArgument_eq_error_iff :
    (∃ cause, ofArgument argument = .error cause) ↔
      ∀ n, ArgumentSpells argument n → 2 ^ 64 ≤ n := by
  have hok : (∃ address, ofArgument argument = .ok address) ↔
      ∃ n, ArgumentSpells argument n ∧ n < 2 ^ 64 := by
    constructor
    · rintro ⟨address, haddress⟩
      obtain ⟨n, hspells, hlt, -⟩ := ofArgument_eq_ok_iff.mp haddress
      exact ⟨n, hspells, hlt⟩
    · rintro ⟨n, hspells, hlt⟩
      exact ⟨UInt16.ofNat n, ofArgument_eq_ok_iff.mpr ⟨n, hspells, hlt, UInt16.toNat_ofNat'⟩⟩
  have herror : (∃ cause, ofArgument argument = .error cause) ↔
      ¬ ∃ address, ofArgument argument = .ok address := by
    cases ofArgument argument with
    | error cause => simp
    | ok address => simp
  rw [herror, hok]
  simp only [not_exists, not_and, Nat.not_lt]

/-! ## 3. Characters -/

/-- The characters of an argument are digits, the letters of the marks and a plus sign. -/
theorem ArgumentSpells.cases_of_mem (h : ArgumentSpells argument n) (hc : c ∈ argument) :
    c ∈ "0xX+".toList ∨ ∃ value, Text.Denotes 16 c value := by
  have hplus : '+' ∈ "0xX+".toList := by decide
  cases h with
  | @marked mark numeral _ hmark h =>
    rcases List.mem_append.mp hc with hc | hc
    · have hletters : ∀ mark ∈ argumentMarks, mark ⊆ "0xX+".toList := by decide
      exact Or.inl (hletters mark hmark hc)
    · exact (h.cases_of_mem hc).imp_left fun heq => by rwa [heq]
  | unmarked h =>
    refine (h.cases_of_mem hc).imp (fun heq => by rwa [heq]) ?_
    exact fun ⟨value, hvalue⟩ => ⟨value, hvalue.of_le (by decide)⟩

/-- Every character that an argument may have. -/
def argumentCharacters : List Char := "0xX+".toList ++ Text.lowerDigits ++ Text.upperDigits

theorem ArgumentSpells.subset (h : ArgumentSpells argument n) : argument ⊆ argumentCharacters := by
  intro c hc
  unfold argumentCharacters
  rw [List.mem_append, List.mem_append]
  rcases h.cases_of_mem hc with hletter | ⟨value, -, hdigit | hdigit⟩
  · exact Or.inl (Or.inl hletter)
  · exact Or.inl (Or.inr (List.mem_of_getElem? hdigit))
  · exact Or.inr (List.mem_of_getElem? hdigit)

/-- No blank, no `$` and no minus sign is a part of an argument. -/
theorem ofArgument_of_foreign
    (h : ∃ c ∈ argument, Text.isBlank c = true ∨ c = '$' ∨ c = '-') :
    ∃ cause, ofArgument argument = .error cause := by
  obtain ⟨c, hc, hforeign⟩ := h
  have hblank : argumentCharacters.filter Text.isBlank = [] := by decide
  have hdollar : '$' ∉ argumentCharacters := by decide
  have hminus : '-' ∉ argumentCharacters := by decide
  refine ofArgument_eq_error_iff.mpr fun n hspells => ?_
  have hmem := hspells.subset hc
  rcases hforeign with hc | rfl | rfl
  · exact absurd hc (List.filter_eq_nil_iff.mp hblank c hmem)
  · exact absurd hmem hdollar
  · exact absurd hmem hminus

/-! ## 4. Arguments and fields -/

/-- A field that is an address and has no blanks around it spells it behind its mark. -/
theorem signed_of_ofField {mark numeral : List Char} (hmark : mark ∈ argumentMarks)
    (htrim : Text.trim (mark ++ numeral) = mark ++ numeral)
    (h : ofField (mark ++ numeral) = .ok address) : Text.Signed 16 numeral address.toNat := by
  have hhex : ∀ mark ∈ argumentMarks, mark ∈ hexMarks := by decide
  have hdrop := (Unmarks.marked mark numeral (hhex mark hmark)).dropHexMark_eq
  have hsays : FieldSays (Text.trim (mark ++ numeral)) (dropHexMark (Text.trim (mark ++ numeral)))
      ((ofField (mark ++ numeral)).mapError AddressError.message) := .of_readNumeral
  rw [h, htrim, hdrop] at hsays
  change FieldSays _ _ (.ok address) at hsays
  cases hsays with
  | address hunsigned hspells hle =>
    rw [UInt16.toNat_ofNat', Nat.mod_eq_of_lt (Nat.lt_succ_of_le hle)]
    exact Text.signed_iff.mpr ⟨hunsigned, hspells⟩

/-- The same text is the same address as an argument. -/
theorem ofArgument_of_ofField (hmark : ∃ mark ∈ argumentMarks, mark <+: argument)
    (htrim : Text.trim argument = argument) (h : ofField argument = .ok address) :
    ofArgument argument = .ok address := by
  obtain ⟨mark, hmem, numeral, rfl⟩ := hmark
  have hlt : address.toNat < 65536 := address.toNat_lt
  have hsigned := signed_of_ofField hmem htrim h
  exact ofArgument_eq_ok_iff.mpr ⟨address.toNat, .marked hmem hsigned,
    Nat.lt_trans hlt (by decide), (Nat.mod_eq_of_lt hlt).symm⟩

/-- **An argument is an address exactly if it spells a number of 64 bits**: digits of base ten, or
    of base sixteen and either case after `0x` or `0X`, at least one, with any number of zeros among
    them and with a plus sign in front or none. The address is the low sixteen bits of the number.
    Whatever else the argument is, it is refused, so that blanks, `$` and minus signs have no place
    in it. Where the argument has a mark and no blanks around it, and a field with this text is an
    address, the argument is the same address. -/
theorem ofArgument_accepts (argument : List Char) :
    (∀ address, ofArgument argument = .ok address ↔
      ∃ n, ArgumentSpells argument n ∧ n < 2 ^ 64 ∧ address.toNat = n % 65536) ∧
    ((∃ cause, ofArgument argument = .error cause) ↔
      ∀ n, ArgumentSpells argument n → 2 ^ 64 ≤ n) ∧
    ((∃ c ∈ argument, Text.isBlank c = true ∨ c = '$' ∨ c = '-') →
      ∃ cause, ofArgument argument = .error cause) ∧
    ((∃ mark ∈ argumentMarks, mark <+: argument) → Text.trim argument = argument →
      ∀ address, ofField argument = .ok address → ofArgument argument = .ok address) :=
  ⟨fun _ => ofArgument_eq_ok_iff, ofArgument_eq_error_iff, ofArgument_of_foreign,
    fun hmark htrim _ => ofArgument_of_ofField hmark htrim⟩

example : ofArgument "0X+00012345".toList = .ok 0x2345 := by decide

end Address

end Disassembly
