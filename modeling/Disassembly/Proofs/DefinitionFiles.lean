import Mathlib.Data.List.Forall2
import Disassembly.Proofs.FirstLabels
import Disassembly.Proofs.Separation
import Disassembly.Region

/-!
# What definition files declare

A definition file is a text of lines, and every line that is not blank must declare something. What
a line declares, and what is wrong with one that does not, is said of its comma-separated fields:
for labels by `LabelTable.Declares` and `LabelTable.Offends`, for regions by `RegionTable.Declares`
and `RegionTable.Offends`. That lines are read by these rules (`Definition.Rules`) is all that the
rest asks for, and it is the same for all files. A file is read exactly if every line with something
on it declares something, what it declares stands in the order of the lines (`readText_eq_ok_iff`),
and otherwise the first line that declares nothing is answered, with its number and with what is
wrong with it (`readText_eq_error_iff`). Blank lines count.
-/

namespace Disassembly

namespace Definition

/-! ## 1. Files of any kind -/

variable {α : Type} {line : List Char} {lines : List (List Char)}

/-- The rules for the lines of a file: what a line declares, and what is wrong with one that
    declares nothing. Lines are read by them if every line is told one or the other, and everything
    that the rules say of a line is what is made of it. -/
structure Rules (define : List (List Char) → Except Defect α) (Declares : List Char → α → Prop)
    (Offends : List Char → String → Prop) : Prop where
  cases (line : List Char) : (∃ item, define (Text.fields line) = .ok item ∧ Declares line item) ∨
    ∃ defect, define (Text.fields line) = .error defect ∧ Offends line defect.message
  ok {line : List Char} {item : α} : Declares line item → define (Text.fields line) = .ok item
  error {line : List Char} {reason : String} : Offends line reason →
    ∃ defect, define (Text.fields line) = .error defect ∧ defect.message = reason

/-- The lines with something on them. -/
def filled (lines : List (List Char)) : List (List Char) :=
  lines.filter fun line => ¬ Text.AllBlank line

/-- `FirstOffence Declares Offends lines number reason`: the line with that number, counted from
    one, is the first that has something on it and declares nothing, and the reason says why. -/
inductive FirstOffence (Declares : List Char → α → Prop) (Offends : List Char → String → Prop) :
    List (List Char) → Nat → String → Prop
  | here {line : List Char} {lines : List (List Char)} {reason : String}
      (hline : ¬ Text.AllBlank line) (h : Offends line reason) :
      FirstOffence Declares Offends (line :: lines) 1 reason
  | later {line : List Char} {lines : List (List Char)} {number : Nat} {reason : String}
      (hline : Text.AllBlank line ∨ ∃ item, Declares line item)
      (h : FirstOffence Declares Offends lines number reason) :
      FirstOffence Declares Offends (line :: lines) (number + 1) reason

theorem isVoid_iff : isVoid line = true ↔ Text.AllBlank line := by
  rw [isVoid, List.isEmpty_iff, Text.trim_eq_nil_iff]

theorem filled_cons_of_blank (h : Text.AllBlank line) : filled (line :: lines) = filled lines :=
  List.filter_cons_of_neg (by simpa using h)

theorem filled_cons_of_not_blank (h : ¬ Text.AllBlank line) :
    filled (line :: lines) = line :: filled lines :=
  List.filter_cons_of_pos (by simpa using h)

theorem mem_filled_iff : line ∈ filled lines ↔ line ∈ lines ∧ ¬ Text.AllBlank line := by
  unfold filled
  rw [List.mem_filter]
  exact and_congr_right fun _ => decide_eq_true_iff

/-- Something is related to each of some lines exactly if a row of things is to all of them. -/
theorem exists_forall₂_iff {Declares : List Char → α → Prop} :
    (∃ items, List.Forall₂ Declares lines items) ↔ ∀ line ∈ lines, ∃ item, Declares line item := by
  induction lines with
  | nil => simp
  | cons line lines ih =>
    rw [List.forall_mem_cons, ← ih]
    constructor
    · rintro ⟨items, h⟩
      obtain ⟨item, others, hitem, hothers, -⟩ := List.forall₂_cons_left_iff.mp h
      exact ⟨⟨item, hitem⟩, others, hothers⟩
    · rintro ⟨⟨item, hitem⟩, others, hothers⟩
      exact ⟨item :: others, .cons hitem hothers⟩

section Reading

variable {define : List (List Char) → Except Defect α} {number : Nat}

theorem readLines_of_blank (h : Text.AllBlank line) :
    readLines define number (line :: lines) = readLines define (number + 1) lines := by
  rw [readLines, if_pos (isVoid_iff.mpr h)]

theorem readLines_of_error (h : ¬ Text.AllBlank line) {defect : Defect}
    (hdefine : define (Text.fields line) = .error defect) :
    readLines define number (line :: lines) = .error { line := number, defect } := by
  rw [readLines, if_neg (mt isVoid_iff.mp h), hdefine]

theorem readLines_of_ok (h : ¬ Text.AllBlank line) {item : α}
    (hdefine : define (Text.fields line) = .ok item) :
    readLines define number (line :: lines) =
      (readLines define (number + 1) lines).map (item :: ·) := by
  rw [readLines, if_neg (mt isVoid_iff.mp h), hdefine]

variable {Declares : List Char → α → Prop} {Offends : List Char → String → Prop}
  (rules : Rules define Declares Offends)
include rules

theorem Rules.ok_iff {item : α} : define (Text.fields line) = .ok item ↔ Declares line item := by
  refine ⟨fun h => ?_, rules.ok⟩
  rcases rules.cases line with ⟨found, hfound, hdeclares⟩ | ⟨defect, hdefect, -⟩
  · obtain rfl := Except.ok.inj (hfound.symm.trans h)
    exact hdeclares
  · rw [hdefect] at h
    cases h

theorem Rules.offends {defect : Defect} (h : define (Text.fields line) = .error defect) :
    Offends line defect.message := by
  rcases rules.cases line with ⟨found, hfound, -⟩ | ⟨other, hother, hoffends⟩
  · rw [hfound] at h
    cases h
  · obtain rfl := Except.error.inj (hother.symm.trans h)
    exact hoffends

theorem readLines_eq_ok_iff {items : List α} :
    readLines define number lines = .ok items ↔ List.Forall₂ Declares (filled lines) items := by
  induction lines generalizing number items with
  | nil =>
    show Except.ok [] = Except.ok items ↔ List.Forall₂ _ [] items
    rw [List.forall₂_nil_left_iff, Except.ok.injEq, eq_comm]
  | cons line lines ih =>
    by_cases hblank : Text.AllBlank line
    · rw [readLines_of_blank hblank, filled_cons_of_blank hblank, ih]
    · rw [filled_cons_of_not_blank hblank, List.forall₂_cons_left_iff]
      cases hdefine : define (Text.fields line) with
      | error defect =>
        rw [readLines_of_error hblank hdefine]
        refine ⟨nofun, ?_⟩
        rintro ⟨item, -, hitem, -⟩
        rw [rules.ok hitem] at hdefine
        cases hdefine
      | ok item =>
        rw [readLines_of_ok hblank hdefine]
        constructor
        · intro h
          cases hrest : readLines define (number + 1) lines with
          | error offence =>
            rw [hrest] at h
            cases h
          | ok others =>
            rw [hrest] at h
            cases h
            exact ⟨item, others, rules.ok_iff.mp hdefine, ih.mp hrest, rfl⟩
        · rintro ⟨other, others, hother, hothers, rfl⟩
          obtain rfl : item = other := Except.ok.inj (hdefine.symm.trans (rules.ok hother))
          rw [ih.mpr hothers]
          rfl

/-- The lines in front of the first offence only move its number. -/
theorem exists_readLines_of_firstOffence {n : Nat} {reason : String}
    (h : FirstOffence Declares Offends lines n reason) :
    ∃ offence, readLines define number lines = .error offence ∧
      offence.line + 1 = number + n ∧ offence.defect.message = reason := by
  induction h generalizing number with
  | here hline h =>
    obtain ⟨defect, hdefine, hmessage⟩ := rules.error h
    exact ⟨_, readLines_of_error hline hdefine, rfl, hmessage⟩
  | @later line lines n reason hline _ ih =>
    obtain ⟨offence, hread, hnumber, hmessage⟩ := @ih (number + 1)
    refine ⟨offence, ?_, by omega, hmessage⟩
    by_cases hblank : Text.AllBlank line
    · rw [readLines_of_blank hblank, hread]
    · obtain ⟨item, hitem⟩ := hline.resolve_left hblank
      rw [readLines_of_ok hblank (rules.ok hitem), hread]
      rfl

theorem firstOffence_of_readLines {offence : Offence}
    (h : readLines define number lines = .error offence) :
    ∃ n, FirstOffence Declares Offends lines n offence.defect.message ∧
      offence.line + 1 = number + n := by
  induction lines generalizing number with
  | nil => cases h
  | cons line lines ih =>
    by_cases hblank : Text.AllBlank line
    · rw [readLines_of_blank hblank] at h
      obtain ⟨n, hfirst, hnumber⟩ := ih h
      exact ⟨n + 1, .later (.inl hblank) hfirst, by omega⟩
    · cases hdefine : define (Text.fields line) with
      | error defect =>
        rw [readLines_of_error hblank hdefine] at h
        cases h
        exact ⟨1, .here hblank (rules.offends hdefine), rfl⟩
      | ok item =>
        rw [readLines_of_ok hblank hdefine] at h
        cases hrest : readLines define (number + 1) lines with
        | ok others =>
          rw [hrest] at h
          cases h
        | error other =>
          rw [hrest] at h
          cases h
          obtain ⟨n, hfirst, hnumber⟩ := ih hrest
          exact ⟨n + 1, .later (.inr ⟨item, rules.ok_iff.mp hdefine⟩) hfirst, by omega⟩

/-- **Otherwise a file is answered with its first offence.** -/
theorem readText_eq_error_iff {text : String} {n : Nat} {reason : String} :
    (∃ offence, readText define text = .error offence ∧ offence.line = n ∧
        offence.defect.message = reason) ↔
      FirstOffence Declares Offends (Text.lines text.toList) n reason := by
  constructor
  · rintro ⟨offence, hread, rfl, rfl⟩
    obtain ⟨n, hfirst, hnumber⟩ := firstOffence_of_readLines rules hread
    obtain rfl : offence.line = n := by omega
    exact hfirst
  · intro h
    obtain ⟨offence, (hread : readText define text = _), hnumber, hmessage⟩ :=
      exists_readLines_of_firstOffence rules h
    exact ⟨offence, hread, by omega, hmessage⟩

/-- **A file is read as what its filled lines declare**, in their order. -/
theorem readText_eq_ok_iff {text : String} {items : List α} :
    readText define text = .ok items ↔
      List.Forall₂ Declares (filled (Text.lines text.toList)) items :=
  readLines_eq_ok_iff rules

/-- A file is read exactly if every line with something on it declares something. -/
theorem readText_isOk_iff {text : String} :
    (∃ items, readText define text = .ok items) ↔
      ∀ line ∈ Text.lines text.toList, ¬ Text.AllBlank line → ∃ item, Declares line item := by
  rw [exists_congr fun items => readText_eq_ok_iff rules, exists_forall₂_iff]
  exact forall_congr' fun line => by rw [mem_filled_iff, and_imp]

end Reading

/-! ## 2. Fields -/

/-- A line has a single field, or a second one behind the first. -/
theorem fields_cases (line : List Char) :
    (∃ only, Text.fields line = [only]) ∨
      ∃ first second others, Text.fields line = first :: second :: others := by
  have hne : Text.fields line ≠ [] := Text.split_ne_nil ',' line
  match hfields : Text.fields line with
  | [] => exact absurd hfields hne
  | [only] => exact .inl ⟨only, rfl⟩
  | first :: second :: others => exact .inr ⟨first, second, others, rfl⟩

theorem addressOf_of_ok {field : List Char} {address : Address}
    (h : Address.ofField field = .ok address) : addressOf field = .ok address := by
  rw [addressOf, h]
  rfl

theorem addressOf_of_error {field : List Char} {cause : AddressError}
    (h : Address.ofField field = .error cause) : addressOf field = .error (.badAddress cause) := by
  rw [addressOf, h]
  rfl

end Definition

/-! ## 3. Label files -/

namespace LabelTable

/-- `Declares line label`: the label's name is the first field without the blanks around it, which
    must leave something, and its address is that in the second field. Further fields say
    nothing. -/
inductive Declares (line : List Char) : Label → Prop
  | intro {first second name : List Char} {others : List (List Char)} {address : Address}
      (hfields : Text.Separates ',' line (first :: second :: others))
      (hname : Text.Trims first name) (hne : name ≠ [])
      (haddress : Address.ofField second = .ok address) :
      Declares line { name := String.ofList name, address }

/-- `Offends line reason`: what is wrong with a line that declares no label. A missing field comes
    before a missing name, and that before a bad address. -/
inductive Offends (line : List Char) : String → Prop
  | missingAddress {only : List Char} (hfields : Text.Separates ',' line [only]) :
      Offends line "missing address field"
  | emptyName {first second : List Char} {others : List (List Char)}
      (hfields : Text.Separates ',' line (first :: second :: others))
      (hname : Text.AllBlank first) :
      Offends line "empty label name"
  | badAddress {first second : List Char} {others : List (List Char)} {cause : AddressError}
      (hfields : Text.Separates ',' line (first :: second :: others))
      (hname : ¬ Text.AllBlank first) (haddress : Address.ofField second = .error cause) :
      Offends line cause.message

variable {first second : List Char} {others : List (List Char)}

theorem define_of_blank (hname : Text.AllBlank first) :
    define (first :: second :: others) = .error .emptyName := by
  rw [define, if_pos (List.isEmpty_iff.mpr (Text.trim_eq_nil_iff.mpr hname))]

theorem define_of_named (hname : ¬ Text.AllBlank first) :
    define (first :: second :: others) =
      (Definition.addressOf second).map fun address =>
        { name := String.ofList (Text.trim first), address } := by
  rw [define, if_neg (mt (fun h => Text.trim_eq_nil_iff.mp (List.isEmpty_iff.mp h)) hname)]
  rfl

variable {line : List Char}

/-- A line declares what is made of it, or offends in the words of the defect that is found. -/
theorem define_cases (line : List Char) :
    (∃ label, define (Text.fields line) = .ok label ∧ Declares line label) ∨
      ∃ defect, define (Text.fields line) = .error defect ∧ Offends line defect.message := by
  rcases Definition.fields_cases line with ⟨only, hfields⟩ | ⟨first, second, others, hfields⟩
  · have hseparates := Text.separates_iff.mpr hfields
    exact .inr ⟨.missingAddress, by rw [hfields, define]; nofun, .missingAddress hseparates⟩
  · have hseparates := Text.separates_iff.mpr hfields
    rw [hfields]
    by_cases hname : Text.AllBlank first
    · exact .inr ⟨.emptyName, define_of_blank hname, .emptyName hseparates hname⟩
    · rw [define_of_named hname]
      cases haddress : Address.ofField second with
      | error cause =>
        rw [Definition.addressOf_of_error haddress]
        exact .inr ⟨.badAddress cause, rfl, .badAddress hseparates hname haddress⟩
      | ok address =>
        rw [Definition.addressOf_of_ok haddress]
        exact .inl ⟨_, rfl, .intro hseparates (Text.trims_trim first)
          (mt Text.trim_eq_nil_iff.mp hname) haddress⟩

theorem define_of_declares {label : Label} (h : Declares line label) :
    define (Text.fields line) = .ok label := by
  obtain ⟨hfields, hname, hne, haddress⟩ := h
  obtain rfl := Text.trims_iff.mp hname
  rw [Text.fields, hfields.split_eq, define_of_named (mt Text.trim_eq_nil_iff.mpr hne),
    Definition.addressOf_of_ok haddress]
  rfl

theorem exists_define_of_offends {reason : String} (h : Offends line reason) :
    ∃ defect, define (Text.fields line) = .error defect ∧ defect.message = reason := by
  cases h with
  | missingAddress hfields =>
    refine ⟨.missingAddress, ?_, rfl⟩
    rw [Text.fields, hfields.split_eq]
    rfl
  | emptyName hfields hname =>
    refine ⟨.emptyName, ?_, rfl⟩
    rw [Text.fields, hfields.split_eq, define_of_blank hname]
  | badAddress hfields hname haddress =>
    refine ⟨.badAddress _, ?_, rfl⟩
    rw [Text.fields, hfields.split_eq, define_of_named hname,
      Definition.addressOf_of_error haddress]
    rfl

/-- **Lines are read by the rules for labels.** -/
theorem rules : Definition.Rules define Declares Offends where
  cases := define_cases
  ok := define_of_declares
  error := exists_define_of_offends

theorem parse_eq_error_iff {text : String} {offence : Offence} :
    parse text = .error offence ↔ Definition.readText define text = .error offence := by
  unfold parse
  cases Definition.readText define text with
  | error other =>
    constructor
    · intro h
      cases h
      rfl
    · intro h
      cases h
      rfl
  | ok labels => exact ⟨nofun, nofun⟩

/-- **A label file is read exactly if every line that is not blank declares a label.** Its table
    then holds these labels in the order of the lines. Otherwise the answer is the number of the
    first line that declares none, blank lines counted, and what is wrong with it. -/
theorem parse_label_file (text : String) :
    ∃ lines, Text.FallsInto text.toList lines ∧
      ((∃ table, parse text = .ok table) ↔
        ∀ line ∈ lines, ¬ Text.AllBlank line → ∃ label, Declares line label) ∧
      (∀ table, parse text = .ok table ↔
        ∃ labels, List.Forall₂ Declares (Definition.filled lines) labels ∧
          table = .ofList labels ∧ table.labels.toList = labels) ∧
      ∀ number reason,
        (∃ offence, parse text = .error offence ∧ offence.line = number ∧
          offence.defect.message = reason) ↔
        Definition.FirstOffence Declares Offends lines number reason := by
  refine ⟨_, Text.fallsInto_lines text.toList, ?_, fun table => ?_, fun number reason => ?_⟩
  · rw [← Definition.readText_isOk_iff rules]
    constructor
    · rintro ⟨table, h⟩
      obtain ⟨labels, hlabels, -⟩ := parse_eq_ok_iff.mp h
      exact ⟨labels, hlabels⟩
    · rintro ⟨labels, hlabels⟩
      exact ⟨_, parse_eq_ok_iff.mpr ⟨labels, hlabels, rfl⟩⟩
  · rw [parse_eq_ok_iff]
    refine exists_congr fun labels => ?_
    rw [Definition.readText_eq_ok_iff rules]
    refine and_congr_right fun _ => ⟨?_, And.left⟩
    rintro rfl
    exact ⟨rfl, (foldl_add labels indexed_empty).2⟩
  · rw [← Definition.readText_eq_error_iff rules]
    exact exists_congr fun offence => and_congr_left fun _ => parse_eq_error_iff

end LabelTable

/-! ## 4. Block files -/

namespace RegionTable

/-- The codes of the kinds. -/
def kindCodes : List (Char × DataKind) :=
  [('a', .ascii), ('W', .wordBigEndian), ('w', .wordLittleEndian), ('s', .string)]

/-- `Codes fields kind`: the kind that the fields behind the two addresses call for. The first of
    them counts, and of what stands in it the first character. -/
inductive Codes : List (List Char) → DataKind → Prop
  | known {field rest : List Char} {others : List (List Char)} {code : Char} {kind : DataKind}
      (hfield : Text.Trims field (code :: rest)) (h : (code, kind) ∈ kindCodes) :
      Codes (field :: others) kind
  | unknown {field rest : List Char} {others : List (List Char)} {code : Char}
      (hfield : Text.Trims field (code :: rest)) (h : ∀ kind, (code, kind) ∉ kindCodes) :
      Codes (field :: others) .byte
  | blank {field : List Char} {others : List (List Char)} (h : Text.AllBlank field) :
      Codes (field :: others) .byte
  | absent : Codes [] .byte

/-- `Declares line region`: the region goes from the address in the first field to that in the
    second, in whichever order they stand, and has the kind that the third field calls for. Further
    fields say nothing. -/
inductive Declares (line : List Char) : Region → Prop
  | intro {start stop : List Char} {others : List (List Char)} {first last : Address}
      {kind : DataKind} (hfields : Text.Separates ',' line (start :: stop :: others))
      (hfirst : Address.ofField start = .ok first) (hlast : Address.ofField stop = .ok last)
      (hkind : Codes others kind) :
      Declares line { first, last, kind }

/-- `Offends line reason`: what is wrong with a line that declares no region. A missing address
    comes before one that is bad, and the first address before the last. -/
inductive Offends (line : List Char) : String → Prop
  | missingEnd {only : List Char} (hfields : Text.Separates ',' line [only]) :
      Offends line "missing end address"
  | badFirst {start stop : List Char} {others : List (List Char)} {cause : AddressError}
      (hfields : Text.Separates ',' line (start :: stop :: others))
      (hfirst : Address.ofField start = .error cause) :
      Offends line cause.message
  | badLast {start stop : List Char} {others : List (List Char)} {first : Address}
      {cause : AddressError} (hfields : Text.Separates ',' line (start :: stop :: others))
      (hfirst : Address.ofField start = .ok first)
      (hlast : Address.ofField stop = .error cause) :
      Offends line cause.message

theorem ofCode_of_mem {code : Char} {kind : DataKind} (h : (code, kind) ∈ kindCodes) :
    DataKind.ofCode (some code) = kind := by
  simp only [kindCodes, List.mem_cons, Prod.mk.injEq, List.not_mem_nil, or_false] at h
  rcases h with ⟨rfl, rfl⟩ | ⟨rfl, rfl⟩ | ⟨rfl, rfl⟩ | ⟨rfl, rfl⟩
  · rfl
  · rfl
  · rfl
  · rfl

theorem ofCode_of_not_mem {code : Char} (h : ∀ kind, (code, kind) ∉ kindCodes) :
    DataKind.ofCode (some code) = .byte := by
  unfold DataKind.ofCode
  split
  · rename_i heq
    exact absurd (Option.some.inj heq ▸ by decide) (h .ascii)
  · rename_i heq
    exact absurd (Option.some.inj heq ▸ by decide) (h .wordBigEndian)
  · rename_i heq
    exact absurd (Option.some.inj heq ▸ by decide) (h .wordLittleEndian)
  · rename_i heq
    exact absurd (Option.some.inj heq ▸ by decide) (h .string)
  · rfl

/-- The code that the fields behind the addresses hold, if there is one. -/
def code? (fields : List (List Char)) : Option Char :=
  fields.head?.bind fun field => (Text.trim field).head?

variable {fields : List (List Char)} {kind : DataKind}

/-- **Fields call for the kind of their code.** -/
theorem codes_iff : Codes fields kind ↔ DataKind.ofCode (code? fields) = kind := by
  constructor
  · intro h
    cases h with
    | known hfield h =>
      rw [code?, List.head?_cons, Option.bind_some, hfield.trim_eq]
      exact ofCode_of_mem h
    | unknown hfield h =>
      rw [code?, List.head?_cons, Option.bind_some, hfield.trim_eq]
      exact ofCode_of_not_mem h
    | blank h =>
      rw [code?, List.head?_cons, Option.bind_some, Text.trim_eq_nil_iff.mpr h]
      rfl
    | absent => rfl
  · rintro rfl
    cases fields with
    | nil => exact .absent
    | cons field others =>
      rw [code?, List.head?_cons, Option.bind_some]
      cases htrim : Text.trim field with
      | nil => exact .blank (Text.trim_eq_nil_iff.mp htrim)
      | cons code rest =>
        rw [List.head?_cons]
        by_cases hcode : ∃ kind, (code, kind) ∈ kindCodes
        · obtain ⟨kind, hkind⟩ := hcode
          rw [ofCode_of_mem hkind]
          exact .known (Text.trims_iff.mpr htrim) hkind
        · have hnone := not_exists.mp hcode
          rw [ofCode_of_not_mem hnone]
          exact .unknown (Text.trims_iff.mpr htrim) hnone

variable {start stop : List Char} {others : List (List Char)}

theorem define_of_badFirst {cause : AddressError} (hfirst : Address.ofField start = .error cause) :
    define (start :: stop :: others) = .error (.badAddress cause) := by
  rw [define, Definition.addressOf_of_error hfirst]
  rfl

theorem define_of_badLast {first : Address} {cause : AddressError}
    (hfirst : Address.ofField start = .ok first) (hlast : Address.ofField stop = .error cause) :
    define (start :: stop :: others) = .error (.badAddress cause) := by
  rw [define, Definition.addressOf_of_ok hfirst, Definition.addressOf_of_error hlast]
  rfl

theorem define_of_addresses {first last : Address} (hfirst : Address.ofField start = .ok first)
    (hlast : Address.ofField stop = .ok last) :
    define (start :: stop :: others) =
      .ok { first, last, kind := .ofCode (code? others) } := by
  rw [define, Definition.addressOf_of_ok hfirst, Definition.addressOf_of_ok hlast]
  rfl

variable {line : List Char}

/-- A line declares what is made of it, or offends in the words of the defect that is found. -/
theorem define_cases (line : List Char) :
    (∃ region, define (Text.fields line) = .ok region ∧ Declares line region) ∨
      ∃ defect, define (Text.fields line) = .error defect ∧ Offends line defect.message := by
  rcases Definition.fields_cases line with ⟨only, hfields⟩ | ⟨start, stop, others, hfields⟩
  · have hseparates := Text.separates_iff.mpr hfields
    exact .inr ⟨.missingEnd, by rw [hfields, define]; nofun, .missingEnd hseparates⟩
  · have hseparates := Text.separates_iff.mpr hfields
    rw [hfields]
    cases hfirst : Address.ofField start with
    | error cause =>
      exact .inr ⟨_, define_of_badFirst hfirst, .badFirst hseparates hfirst⟩
    | ok first =>
      cases hlast : Address.ofField stop with
      | error cause =>
        exact .inr ⟨_, define_of_badLast hfirst hlast, .badLast hseparates hfirst hlast⟩
      | ok last =>
        exact .inl ⟨_, define_of_addresses hfirst hlast,
          .intro hseparates hfirst hlast (codes_iff.mpr rfl)⟩

theorem define_of_declares {region : Region} (h : Declares line region) :
    define (Text.fields line) = .ok region := by
  obtain ⟨hfields, hfirst, hlast, hkind⟩ := h
  rw [Text.fields, hfields.split_eq, define_of_addresses hfirst hlast, codes_iff.mp hkind]

theorem exists_define_of_offends {reason : String} (h : Offends line reason) :
    ∃ defect, define (Text.fields line) = .error defect ∧ defect.message = reason := by
  cases h with
  | missingEnd hfields =>
    refine ⟨.missingEnd, ?_, rfl⟩
    rw [Text.fields, hfields.split_eq]
    rfl
  | badFirst hfields hfirst =>
    refine ⟨.badAddress _, ?_, rfl⟩
    rw [Text.fields, hfields.split_eq, define_of_badFirst hfirst]
  | badLast hfields hfirst hlast =>
    refine ⟨.badAddress _, ?_, rfl⟩
    rw [Text.fields, hfields.split_eq, define_of_badLast hfirst hlast]

/-- **Lines are read by the rules for regions.** -/
theorem rules : Definition.Rules define Declares Offends where
  cases := define_cases
  ok := define_of_declares
  error := exists_define_of_offends

/-- **A block file is read exactly if every line that is not blank declares a region.** Its table
    is that of these regions in the order of the lines: whether their ends stand in order, and
    whether they overlap, is not asked. Otherwise the answer is the number of the first line that
    declares none, blank lines counted, and what is wrong with it. -/
theorem parse_block_file (text : String) :
    ∃ lines, Text.FallsInto text.toList lines ∧
      ((∃ table, parse text = .ok table) ↔
        ∀ line ∈ lines, ¬ Text.AllBlank line → ∃ region, Declares line region) ∧
      (∀ table, parse text = .ok table ↔
        List.Forall₂ Declares (Definition.filled lines) table) ∧
      ∀ number reason,
        (∃ offence, parse text = .error offence ∧ offence.line = number ∧
          offence.defect.message = reason) ↔
        Definition.FirstOffence Declares Offends lines number reason := by
  refine ⟨_, Text.fallsInto_lines text.toList, ?_, fun table => ?_, fun number reason => ?_⟩
  · exact Definition.readText_isOk_iff rules
  · exact Definition.readText_eq_ok_iff rules
  · exact Definition.readText_eq_error_iff rules

end RegionTable

end Disassembly
