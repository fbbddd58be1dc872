import Disassembly.Proofs.LabelIndex

/-!
# What labels do to an operand

A format says whether it is aware of labels (`OperandFormat.isLabelAware`), and it shows operands
under labels (`OperandFormat.render`): two functions, which know nothing of each other. The values
for which a label may stand tell them both:

* a format is aware of labels exactly if it has such values
  (`OperandFormat.labelValues_eq_nil_iff`), and there are operands in which they are at hand
  (`OperandFormat.exists_mem_labelValues`);
* to show an operand under labels is to put names in the place of these values first
  (`Fragment.join_map_named`);
* the labels leave it as it is only if each of the names reads as the value that it stands for
  (`OperandFormat.render_eq_render_iff`). This would fail if one name that is too long could make up
  for another that is too short; but all values of one operand are the same value
  (`OperandFormat.eq_of_mem_labelValues`).
-/

namespace Disassembly

/-! ## 1. Names in fragments -/

namespace Fragment

/-- The fragment with its name in the place of an address that has one. -/
def named (name? : Address → Option String) : Fragment → Fragment
  | text shown => text shown
  | address value =>
    match name? value with
    | some name => text name
    | none => address value

variable {name? : Address → Option String} {fragments : List Fragment} {value : Address}

/-- **Showing fragments under names is putting the names in first.** -/
theorem join_map_named (name? : Address → Option String) (fragments : List Fragment) :
    join nameless (fragments.map (named name?)) = join name? fragments := by
  unfold join
  rw [List.map_map]
  refine congrArg String.join (List.map_congr_left fun fragment _ => ?_)
  cases fragment with
  | text shown => rfl
  | address value =>
    show (named name? (address value)).shown nameless =
      (name? value).getD (showWord (some value))
    rw [named]
    cases name? value with
    | none => rfl
    | some name => rfl

/-- **Names leave a text as it is only if they read as the addresses that they stand for**, where
    all addresses are one address: then a name that is too long in one place is too long in all. -/
theorem join_eq_join_nameless_iff
    (hone : ∀ value other, address value ∈ fragments → address other ∈ fragments → value = other) :
    join name? fragments = join nameless fragments ↔
      ∀ value, address value ∈ fragments → ∀ name, name? value = some name →
        name = showWord (some value) := by
  constructor
  · intro hjoin value hmem name hname
    have hshown : (address value).shown name? = name := by
      show (name? value).getD _ = name
      rw [hname, Option.getD_some]
    have hwidths : ∀ fragment ∈ fragments,
        fragment.shown name? = fragment.shown nameless ∨
          (fragment.shown name?).toList.length = name.toList.length ∧
            (fragment.shown nameless).toList.length = 5 := by
      intro fragment hfragment
      cases fragment with
      | text shown => exact .inl rfl
      | address other =>
        obtain rfl := hone value other hmem hfragment
        rw [hshown]
        exact .inr ⟨rfl, length_showWord (some value)⟩
    rw [← hshown]
    rcases Nat.le_total name.toList.length 5 with hshort | hlong
    · refine eq_of_join_eq (fun fragment hfragment => ?_) hjoin (address value) hmem
      rcases hwidths fragment hfragment with hsame | ⟨hnamed, hplain⟩
      · rw [hsame]
      · omega
    · refine (eq_of_join_eq (fun fragment hfragment => ?_) hjoin.symm (address value) hmem).symm
      rcases hwidths fragment hfragment with hsame | ⟨hnamed, hplain⟩
      · rw [hsame]
      · omega
  · intro hnames
    refine congrArg String.join (List.map_congr_left fun fragment hfragment => ?_)
    cases fragment with
    | text shown => rfl
    | address value =>
      show (name? value).getD (showWord (some value)) = showWord (some value)
      cases hname : name? value with
      | none => rfl
      | some name => exact hnames value hfragment name hname

end Fragment

namespace OperandFormat

/-! ## 2. Values of one operand -/

variable {format : OperandFormat} {operands : List UInt8} {target : Option Address}

/-- All values of one operand are the same value. -/
theorem eq_of_mem_labelValues {value other : Option Address}
    (hvalue : value ∈ format.labelValues operands target)
    (hother : other ∈ format.labelValues operands target) : value = other := by
  cases format with
  | implied => cases hvalue
  | fixed shown => cases hvalue
  | byte affix => cases hvalue
  | word order affix label =>
    cases label with
    | true => rw [List.mem_singleton.mp hvalue, List.mem_singleton.mp hother]
    | false => cases hvalue
  | relative8 affix => rw [List.mem_singleton.mp hvalue, List.mem_singleton.mp hother]
  | relative16 order affix => rw [List.mem_singleton.mp hvalue, List.mem_singleton.mp hother]
  | registerPair names => cases hvalue
  | pieces parts =>
    obtain ⟨-, -, rfl⟩ := List.mem_map.mp hvalue
    obtain ⟨-, -, rfl⟩ := List.mem_map.mp hother
    rfl

/-- With two bytes and a target every value is at hand. -/
theorem exists_mem_labelValues (h : format.isLabelAware = true) :
    ∃ value, some value ∈ format.labelValues [0, 0] (some 0) := by
  have hvalues : ∀ value ∈ format.labelValues [0, 0] (some 0), ∃ address, value = some address := by
    intro value hvalue
    cases format with
    | implied => cases hvalue
    | fixed shown => cases hvalue
    | byte affix => cases hvalue
    | word order affix label =>
      cases label with
      | true => exact ⟨_, List.mem_singleton.mp hvalue⟩
      | false => cases hvalue
    | relative8 affix => exact ⟨_, List.mem_singleton.mp hvalue⟩
    | relative16 order affix => exact ⟨_, List.mem_singleton.mp hvalue⟩
    | registerPair names => cases hvalue
    | pieces parts =>
      obtain ⟨-, -, rfl⟩ := List.mem_map.mp hvalue
      exact ⟨_, rfl⟩
  have hne : format.labelValues [0, 0] (some 0) ≠ [] := by
    rw [Ne, labelValues_eq_nil_iff, h]
    exact nofun
  obtain ⟨value, hvalue⟩ := List.exists_mem_of_ne_nil _ hne
  obtain ⟨address, rfl⟩ := hvalues value hvalue
  exact ⟨address, hvalue⟩

/-! ## 3. Operands under labels -/

theorem render_eq_join_nameless (format : OperandFormat) (operands : List UInt8)
    (target : Option Address) :
    format.render { bytes := operands, target } =
      Fragment.join nameless (format.fragments operands target) := by
  rw [render_eq_join_fragments, show LabelTable.empty.nameAt? = nameless from
    funext LabelTable.nameAt?_empty]

/-- **When labels show**: an operand stays as it is without labels exactly if the name of each of
    its values, where there is one, reads as the address. -/
theorem render_eq_render_iff {labels : LabelTable} :
    format.render { bytes := operands, target, labels } =
        format.render { bytes := operands, target } ↔
      ∀ value, some value ∈ format.labelValues operands target →
        ∀ name, labels.nameAt? value = some name → name = showWord (some value) := by
  rw [render_eq_join_fragments, render_eq_join_nameless, Fragment.join_eq_join_nameless_iff]
  · exact forall_congr' fun value => imp_congr_left address_mem_fragments_iff
  · intro value other hvalue hother
    rw [address_mem_fragments_iff] at hvalue hother
    exact Option.some.inj (eq_of_mem_labelValues hvalue hother)

/-- **A format is aware of labels exactly if labels show in it, and they show as names in the place
    of values.** It is not aware of them exactly if no bytes, no target and no table of labels make
    a difference to the text. And for any of these, the text without labels is that of a row of
    fragments, and the text with labels is that of the same row with the first declared name in the
    place of each address that has one. The addresses among the fragments are the word, the target
    or what stands in for it, and the target once more for each piece that shows it, as far as they
    are at hand. -/
theorem labels_replace_values (format : OperandFormat) :
    (format.isLabelAware = false ↔
      ∀ (bytes : List UInt8) (target : Option Address) (table : LabelTable), table.Built →
        format.render { bytes, target, labels := table } = format.render { bytes, target }) ∧
    ∀ (bytes : List UInt8) (target : Option Address) (table : LabelTable), table.Built →
      let name? := LabelTable.firstName? table.labels.toList
      let fragments := format.fragments bytes target
      format.render { bytes, target } = Fragment.join nameless fragments ∧
      format.render { bytes, target, labels := table } =
        Fragment.join nameless (fragments.map (Fragment.named name?)) ∧
      fragments.filterMap Fragment.address? = (format.labelValues bytes target).filterMap id := by
  refine ⟨⟨fun hunaware bytes target table _ => ?_, fun hsame => ?_⟩,
    fun bytes target table hbuilt => ?_⟩
  · rw [render_eq_render_iff, labelValues_eq_nil_iff.mpr hunaware]
    exact fun _ => nofun
  · refine Bool.eq_false_iff.mpr fun haware => ?_
    obtain ⟨value, hvalue⟩ := exists_mem_labelValues haware
    let table := LabelTable.empty.add { name := "loop", address := value }
    have hbuilt : table.Built := .add .empty _
    have hname : table.nameAt? value = some "loop" := by
      rw [LabelTable.Holds.empty.nameAt?_add, LabelTable.nameAt?_empty, if_pos rfl, Option.none_or]
    have hreads := render_eq_render_iff.mp (hsame [0, 0] (some 0) table hbuilt) value hvalue _ hname
    have hlength := length_showWord (some value)
    rw [← hreads] at hlength
    cases hlength
  · intro name? fragments
    have hnames : table.nameAt? = name? := funext hbuilt.indexed.nameAt?_eq
    refine ⟨render_eq_join_nameless format bytes target, ?_, filterMap_address?_fragments⟩
    rw [render_eq_join_fragments, hnames, Fragment.join_map_named]

/-- A target that is shown twice and not known, so that the byte stands in for it, with two labels
    at its address. Where the byte is missing too there is nothing that a label could stand for. -/
theorem labels_replace_values_pieces :
    let format := pieces [.target, .text ",", .byte 0, .text ",", .target]
    let table := (LabelTable.empty.add ⟨"port", 5⟩).add ⟨"latch", 5⟩
    table.Built ∧ format.isLabelAware = true ∧
    format.render { bytes := [5] } = "$0005,$05,$0005" ∧
    format.render { bytes := [5], labels := table } = "port,$05,port" ∧
    (format.fragments [5] none).filterMap Fragment.address? = [5, 5] ∧
    format.render { bytes := [], labels := table } = "$????,$??,$????" := by
  intro format table
  have hbuilt : table.Built := .add (.add .empty _) _
  obtain ⟨-, hreplaced⟩ := labels_replace_values format
  obtain ⟨hplain, hnamed, haddresses⟩ := hreplaced [5] none table hbuilt
  obtain ⟨-, hmissing, -⟩ := hreplaced [] none table hbuilt
  exact ⟨hbuilt, by decide, hplain.trans (by decide +kernel), hnamed.trans (by decide +kernel),
    haddresses, hmissing.trans (by decide +kernel)⟩

end OperandFormat

end Disassembly
