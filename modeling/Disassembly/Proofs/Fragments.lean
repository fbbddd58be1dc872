import Disassembly.Proofs.OperandText

/-!
# Where labels stand in an operand

The text of an operand falls into fragments: texts that are the same under any labels, and addresses
for which a label may stand (`OperandFormat.fragments`). Which they are is a matter of the format,
the operand bytes and the target; the labels are asked for nothing but the names of these addresses
(`OperandFormat.render_eq_join_fragments`).

The addresses are values that the format has for labels (`OperandFormat.labelValues`), as far as
these are at hand (`OperandFormat.filterMap_address?_fragments`); what is shown for a value that is
not there is text like any other. A format without such values is one that is not aware of labels
(`OperandFormat.labelValues_eq_nil_iff`).
-/

namespace Disassembly

/-! ## 1. Fragments -/

/-- A part of a text: one that stands as it is, or an address for which a label may stand. -/
inductive Fragment where
  | text (shown : String)
  | address (value : Address)
deriving DecidableEq, Repr

/-- The names of a listing without labels. -/
def nameless (_ : Address) : Option String := none

namespace Fragment

/-- The address that a fragment is, if it is one. -/
def address? : Fragment → Option Address
  | text _ => none
  | address value => some value

/-- The text of a fragment: an address is shown by its name, if it has one. -/
def shown (name? : Address → Option String) : Fragment → String
  | text shown => shown
  | address value => (name? value).getD (showWord (some value))

/-- The text of fragments one after another. -/
def join (name? : Address → Option String) (fragments : List Fragment) : String :=
  String.join (fragments.map (shown name?))

/-- A value for which a label may stand, if it is there. -/
def ofValue : Option Address → Fragment
  | some value => address value
  | none => text (showWord none)

variable {name? : Address → Option String} {fragments : List Fragment} {value : Address}

theorem address?_ofValue (value : Option Address) : (ofValue value).address? = value := by
  cases value with
  | none => rfl
  | some address => rfl

theorem mem_filterMap_address?_iff :
    value ∈ fragments.filterMap address? ↔ address value ∈ fragments := by
  rw [List.mem_filterMap]
  constructor
  · rintro ⟨fragment, hmem, hvalue⟩
    cases fragment with
    | text shown => cases hvalue
    | address other =>
      cases hvalue
      exact hmem
  · exact fun hmem => ⟨address value, hmem, rfl⟩

theorem join_cons (fragment : Fragment) (fragments : List Fragment) :
    join name? (fragment :: fragments) = fragment.shown name? ++ join name? fragments := by
  apply String.toList_injective
  simp [join]

theorem shown_ofValue (labels : LabelTable) (value : Option Address) :
    (ofValue value).shown labels.nameAt? = showAddress labels value := by
  cases value with
  | none => rfl
  | some address =>
    unfold showAddress
    rw [Option.bind_some]
    show (labels.nameAt? address).getD (showWord (some address)) = _
    cases labels.nameAt? address with
    | none => rfl
    | some name => rfl

end Fragment

/-! ## 2. Formats -/

/-- A fragment with the fixed text around it. -/
def Affix.around (affix : Affix) (fragment : Fragment) : List Fragment :=
  [.text affix.before, fragment, .text affix.after]

/-- The fragment of a piece. -/
def Piece.fragment (operands : List UInt8) (target : Option Address) : Piece → Fragment
  | .text shown => .text shown
  | .byte index => .text (showByte operands[index]?)
  | .word index order => .text (showWord (wordAt? operands index order))
  | .target => .ofValue { bytes := operands, target : OperandContext }.target8?

namespace OperandFormat

/-- The fragments of an operand. Labels may stand for a word that is an address, and for the target
    of a branch; for nothing else. -/
def fragments (operands : List UInt8) (target : Option Address) : OperandFormat → List Fragment
  | implied => []
  | fixed shown => [.text shown]
  | byte affix => affix.around (.text (showByte operands.head?))
  | word order affix label =>
    let value := wordAt? operands 0 order
    affix.around (if label then .ofValue value else .text (showWord value))
  | relative8 affix =>
    affix.around (.ofValue { bytes := operands, target : OperandContext }.target8?)
  | relative16 order affix =>
    affix.around (.ofValue ({ bytes := operands, target : OperandContext }.target16? order))
  | registerPair names => [.text ((registerPair names).render { bytes := operands })]
  | pieces parts => parts.map (Piece.fragment operands target)

variable {format : OperandFormat} {operands : List UInt8} {target : Option Address}

theorem join_around (name? : Address → Option String) (affix : Affix) (fragment : Fragment) :
    Fragment.join name? (affix.around fragment) = affix.wrap (fragment.shown name?) :=
  (join_wrap affix _).symm

/-- **An operand is its fragments**, with the names of the labels in them. -/
theorem render_eq_join_fragments (format : OperandFormat) (operands : List UInt8)
    (target : Option Address) (labels : LabelTable) :
    format.render { bytes := operands, target, labels } =
      Fragment.join labels.nameAt? (format.fragments operands target) := by
  cases format with
  | implied => rfl
  | fixed shown => exact (String.empty_append).symm
  | byte affix =>
    rw [fragments, join_around]
    rfl
  | word order affix label =>
    rw [fragments, join_around]
    cases label with
    | true => exact congrArg affix.wrap (Fragment.shown_ofValue labels _).symm
    | false => rfl
  | relative8 affix =>
    rw [fragments, join_around, Fragment.shown_ofValue]
    rfl
  | relative16 order affix =>
    rw [fragments, join_around, Fragment.shown_ofValue]
    rfl
  | registerPair names => exact (String.empty_append).symm
  | pieces parts =>
    have hpiece : ∀ piece : Piece, piece.render { bytes := operands, target, labels } =
        (piece.fragment operands target).shown labels.nameAt? := by
      intro piece
      cases piece with
      | text shown => rfl
      | byte index => rfl
      | word index order => rfl
      | target => exact (Fragment.shown_ofValue labels _).symm
    show String.join (parts.map _) = String.join ((parts.map _).map _)
    rw [List.map_map]
    exact congrArg String.join (List.map_congr_left fun piece _ => hpiece piece)

/-! ## 3. Values -/

/-- The values for which a label may stand, in the order in which they show: a word that is an
    address, and the target of a branch wherever a piece shows it. Where the bytes of a value are
    not there it is among them as `none`. -/
def labelValues (operands : List UInt8) (target : Option Address) :
    OperandFormat → List (Option Address)
  | word order _ true => [wordAt? operands 0 order]
  | relative8 _ => [{ bytes := operands, target : OperandContext }.target8?]
  | relative16 order _ => [{ bytes := operands, target : OperandContext }.target16? order]
  | pieces parts => (parts.filter (· = .target)).map fun _ =>
      { bytes := operands, target : OperandContext }.target8?
  | _ => []

/-- **A format without values for labels is one that is not aware of them.** -/
theorem labelValues_eq_nil_iff :
    format.labelValues operands target = [] ↔ format.isLabelAware = false := by
  cases format with
  | implied => exact iff_of_true rfl rfl
  | fixed shown => exact iff_of_true rfl rfl
  | byte affix => exact iff_of_true rfl rfl
  | word order affix label =>
    cases label with
    | true => exact iff_of_false nofun nofun
    | false => exact iff_of_true rfl rfl
  | relative8 affix => exact iff_of_false nofun nofun
  | relative16 order affix => exact iff_of_false nofun nofun
  | registerPair names => exact iff_of_true rfl rfl
  | pieces parts =>
    rw [labelValues, List.map_eq_nil_iff, List.filter_eq_nil_iff, isLabelAware,
      ← Bool.not_eq_true, List.contains_iff_mem]
    simp only [decide_eq_true_eq]
    exact ⟨fun hnone hmem => hnone _ hmem rfl, fun hnone piece hmem heq => hnone (heq ▸ hmem)⟩

theorem filterMap_address?_around (affix : Affix) (fragment : Fragment) :
    (affix.around fragment).filterMap Fragment.address? = fragment.address?.toList := by
  cases fragment with
  | text shown => rfl
  | address value => rfl

/-- **The addresses in an operand are the values of its format that are at hand.** -/
theorem filterMap_address?_fragments :
    (format.fragments operands target).filterMap Fragment.address? =
      (format.labelValues operands target).filterMap id := by
  have hone : ∀ (affix : Affix) (value : Option Address),
      (affix.around (.ofValue value)).filterMap Fragment.address? = [value].filterMap id := by
    intro affix value
    rw [filterMap_address?_around, Fragment.address?_ofValue]
    cases value with
    | none => rfl
    | some address => rfl
  cases format with
  | implied => rfl
  | fixed shown => rfl
  | byte affix => rfl
  | word order affix label =>
    cases label with
    | true => exact hone affix _
    | false => rfl
  | relative8 affix => exact hone affix _
  | relative16 order affix => exact hone affix _
  | registerPair names => rfl
  | pieces parts =>
    rw [fragments, labelValues, List.filterMap_map, List.filterMap_map, List.filterMap_filter]
    refine List.filterMap_congr fun piece _ => ?_
    cases piece with
    | text shown => rfl
    | byte index => rfl
    | word index order => rfl
    | target => exact Fragment.address?_ofValue _

theorem address_mem_fragments_iff {value : Address} :
    .address value ∈ format.fragments operands target ↔
      some value ∈ format.labelValues operands target := by
  rw [← Fragment.mem_filterMap_address?_iff, filterMap_address?_fragments, List.mem_filterMap]
  exact ⟨fun ⟨_, hmem, hvalue⟩ => hvalue ▸ hmem, fun hmem => ⟨_, hmem, rfl⟩⟩

end OperandFormat

end Disassembly
