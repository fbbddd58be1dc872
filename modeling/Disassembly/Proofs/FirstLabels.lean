import Disassembly.Label

/-!
# What a label table finds

A table keeps beside its labels where the first one at each address stands. Building it keeps the
two in step (`Indexed`), so a lookup finds what a walk over the labels in the order of their
declaration would find first (`nameAt?_ofList`). A table that was read from a file is one of labels
that all have names (`exists_labels_of_parse`), and whatever is built from such a table label by
label is in step too (`Built.indexed`).
-/

namespace Disassembly

/-- What a definition file declares was made of the fields of its lines. -/
theorem Definition.exists_fields_of_mem {define : List (List Char) → Except Defect α} {number : Nat}
    {lines : List (List Char)} {items : List α} (h : readLines define number lines = .ok items) :
    ∀ item ∈ items, ∃ fields, define fields = .ok item := by
  induction lines generalizing number items with
  | nil =>
    cases h
    simp
  | cons line lines ih =>
    rw [readLines] at h
    split at h
    · exact ih h
    · split at h
      · cases h
      · rename_i item hitem
        cases hrest : readLines define (number + 1) lines with
        | error offence =>
          rw [hrest] at h
          cases h
        | ok others =>
          rw [hrest] at h
          cases h
          intro other hother
          rcases List.mem_cons.mp hother with rfl | hother
          · exact ⟨_, hitem⟩
          · exact ih hrest other hother

namespace LabelTable

/-! ## 1. The first label at an address -/

/-- The name that labels give to an address: that of the first one declared there. -/
def firstName? (labels : List Label) (address : Address) : Option String :=
  (labels.find? (·.address = address)).map (·.name)

/-- The positions beside the labels are those of the first label at each address. -/
def Indexed (table : LabelTable) : Prop :=
  ∀ address, table.firstAt[address]? = table.labels.toList.findIdx? (·.address = address)

theorem indexed_empty : empty.Indexed := by
  intro address
  exact Std.TreeMap.getElem?_emptyc

variable {table : LabelTable}

/-- A label added behind the others is the first at its address only if none of them stands
    there. -/
theorem Indexed.add (h : table.Indexed) (label : Label) : (table.add label).Indexed := by
  intro address
  show (table.firstAt.insertIfNew label.address table.labels.size)[address]? =
    (table.labels.push label).toList.findIdx? (·.address = address)
  rw [Std.TreeMap.getElem?_insertIfNew, Array.toList_push, List.findIdx?_append,
    List.findIdx?_singleton, ← h address]
  by_cases heq : label.address = address
  · subst heq
    cases hfirst : table.firstAt[label.address]? with
    | none =>
      have hnew : label.address ∉ table.firstAt := by
        rw [Std.TreeMap.mem_iff_isSome_getElem?, hfirst]
        simp
      simp [hnew]
    | some position =>
      have hold : label.address ∈ table.firstAt := by
        rw [Std.TreeMap.mem_iff_isSome_getElem?, hfirst]
        rfl
      simp [hold]
  · have hother : ¬ (compare label.address address = .eq ∧ label.address ∉ table.firstAt) :=
      fun hinserted => heq (Std.LawfulEqCmp.eq_of_compare hinserted.1)
    rw [if_neg hother]
    simp [heq]

theorem foldl_add (labels : List Label) (h : table.Indexed) :
    (labels.foldl add table).Indexed ∧
      (labels.foldl add table).labels.toList = table.labels.toList ++ labels := by
  induction labels generalizing table with
  | nil => exact ⟨h, (List.append_nil _).symm⟩
  | cons label labels ih =>
    obtain ⟨hindexed, hlabels⟩ := ih (h.add label)
    refine ⟨hindexed, hlabels.trans ?_⟩
    rw [show (table.add label).labels = table.labels.push label from rfl, Array.toList_push,
      List.append_assoc]
    rfl

theorem Indexed.nameAt?_eq (h : table.Indexed) (address : Address) :
    table.nameAt? address = firstName? table.labels.toList address := by
  unfold nameAt? firstName?
  rw [h address, List.find?_eq_bind_findIdx?_getElem?]
  cases table.labels.toList.findIdx? (·.address = address) with
  | none => rfl
  | some position =>
    show (do let label ← table.labels[position]?; return label.name) =
      Option.map (·.name) table.labels.toList[position]?
    rw [Array.getElem?_toList]
    cases table.labels[position]? with
    | none => rfl
    | some label => rfl

theorem name_ne_empty_of_define {fields : List (List Char)} {label : Label}
    (h : define fields = .ok label) : label.name ≠ "" := by
  unfold define at h
  split at h
  · rename_i name address others
    split at h
    · cases h
    · rename_i hname
      cases haddress : Definition.addressOf address with
      | error defect =>
        rw [haddress] at h
        cases h
      | ok value =>
        rw [haddress] at h
        cases h
        simpa using hname
  · cases h

/-- A file is read as the table of the labels that it declares. -/
theorem parse_eq_ok_iff {text : String} :
    parse text = .ok table ↔
      ∃ labels, Definition.readText define text = .ok labels ∧ table = ofList labels := by
  unfold parse
  cases Definition.readText define text with
  | error offence => exact ⟨nofun, nofun⟩
  | ok labels =>
    constructor
    · intro h
      cases h
      exact ⟨labels, rfl, rfl⟩
    · rintro ⟨others, hothers, rfl⟩
      cases hothers
      rfl

/-- **A file declares labels with names**, and its table is that of these labels. -/
theorem exists_labels_of_parse {text : String} (h : parse text = .ok table) :
    ∃ labels, table = ofList labels ∧ ∀ label ∈ labels, label.name ≠ "" := by
  obtain ⟨labels, hread, rfl⟩ := parse_eq_ok_iff.mp h
  refine ⟨labels, rfl, fun label hlabel => ?_⟩
  obtain ⟨fields, hfields⟩ := Definition.exists_fields_of_mem hread label hlabel
  exact name_ne_empty_of_define hfields

/-! ## 3. Tables that are built -/

/-- Tables as they come about: the one without labels, those of files, and any of these with
    labels added. -/
inductive Built : LabelTable → Prop where
  | empty : Built .empty
  | parsed {text : String} {table : LabelTable} (h : parse text = .ok table) : Built table
  | add {table : LabelTable} (h : Built table) (label : Label) : Built (table.add label)

/-- **In a table that is built the positions are those of the first labels.** -/
theorem Built.indexed (h : table.Built) : table.Indexed := by
  induction h with
  | empty => exact indexed_empty
  | parsed h =>
    obtain ⟨labels, rfl, -⟩ := exists_labels_of_parse h
    exact (foldl_add labels indexed_empty).1
  | add _ label ih => exact ih.add label

end LabelTable

end Disassembly
