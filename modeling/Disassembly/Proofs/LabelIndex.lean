import Disassembly.Listing
import Disassembly.Proofs.DefinitionFiles
import Disassembly.Proofs.Fragments

/-!
# The positions beside the labels

A label table answers from the positions that it keeps, and never walks its labels. This file says
that nobody can tell:

* `Holds` follows a table back to the labels that were declared for it, from none or from a file,
  and then label by label;
* `IsFirstAt` says of a list of labels which one is the first at an address, and the positions say
  exactly that (`Holds.getElem?_firstAt_iff`), whatever was declared, and however often;
* one more label changes an answer only at its own address, and there only if there was none
  (`Holds.nameAt?_add`).

So what a listing shows for an address is what a walk over the declarations would have found.
-/

namespace Disassembly.LabelTable

/-! ## 1. The first label at an address -/

/-- `IsFirstAt labels address position`: the label at this position has the address, and none before
    it has. -/
def IsFirstAt (labels : List Label) (address : Address) (position : Nat) : Prop :=
  ∃ label, labels[position]? = some label ∧ label.address = address ∧
    ∀ other ∈ labels.take position, other.address ≠ address

variable {labels : List Label} {address : Address} {position : Nat}

theorem IsFirstAt.lt_length (h : IsFirstAt labels address position) : position < labels.length := by
  obtain ⟨label, hlabel, -⟩ := h
  exact (List.getElem?_eq_some_iff.mp hlabel).1

/-- A search from the front stops at the first label with the address. -/
theorem findIdx?_eq_some_iff_isFirstAt :
    labels.findIdx? (·.address = address) = some position ↔ IsFirstAt labels address position := by
  rw [List.findIdx?_eq_some_iff_getElem]
  constructor
  · rintro ⟨hlt, haddress, hearlier⟩
    refine ⟨labels[position], List.getElem?_eq_getElem hlt, of_decide_eq_true haddress, ?_⟩
    intro other hother
    obtain ⟨earlier, hle, rfl⟩ := List.mem_take_iff_getElem.mp hother
    have hbefore : earlier < position := Nat.lt_of_lt_of_le hle (Nat.min_le_left _ _)
    exact fun hfound => hearlier earlier hbefore (decide_eq_true hfound)
  · rintro ⟨label, hlabel, haddress, hearlier⟩
    obtain ⟨hlt, rfl⟩ := List.getElem?_eq_some_iff.mp hlabel
    refine ⟨hlt, decide_eq_true haddress, fun earlier hbefore hfound => ?_⟩
    refine hearlier labels[earlier] ?_ (of_decide_eq_true hfound)
    exact List.mem_take_iff_getElem.mpr ⟨earlier, Nat.lt_min.mpr ⟨hbefore, by omega⟩, rfl⟩

theorem firstName?_eq_none_iff :
    firstName? labels address = none ↔ ∀ label ∈ labels, label.address ≠ address := by
  unfold firstName?
  rw [Option.map_eq_none_iff, List.find?_eq_none]
  exact forall₂_congr fun label _ => not_congr decide_eq_true_iff

/-- A label behind the others names its address only if none of them does. -/
theorem firstName?_concat (labels : List Label) (label : Label) (address : Address) :
    firstName? (labels ++ [label]) address =
      (firstName? labels address).or
        (if label.address = address then some label.name else none) := by
  unfold firstName?
  rw [List.find?_append, Option.map_or, List.find?_singleton]
  by_cases haddress : label.address = address
  · rw [if_pos haddress, if_pos (decide_eq_true haddress), Option.map_some]
  · rw [if_neg haddress, if_neg (by simpa using haddress), Option.map_none]

/-! ## 2. Tables and what was declared for them -/

/-- `table.Holds declared`: the table comes about by declaring these labels, in this order. It
    starts without any, or with those that the lines of a file declare, and then takes one after
    another. -/
inductive Holds : LabelTable → List Label → Prop where
  | empty : Holds .empty []
  | parsed {text : String} {lines : List (List Char)} {table : LabelTable} {declared : List Label}
      (h : parse text = .ok table) (hlines : Text.FallsInto text.toList lines)
      (hdeclared : List.Forall₂ Declares (Definition.filled lines) declared) :
      Holds table declared
  | add {table : LabelTable} {declared : List Label} (h : Holds table declared) (label : Label) :
      Holds (table.add label) (declared ++ [label])

variable {table : LabelTable} {declared : List Label}

/-- How a table came about shows in nothing but the labels declared for it. -/
theorem Holds.eq_ofList (h : table.Holds declared) : table = ofList declared := by
  induction h with
  | empty => rfl
  | @parsed text lines table declared h hlines hdeclared =>
    obtain ⟨labels, hlabels, rfl⟩ := parse_eq_ok_iff.mp h
    rw [← hlines.lines_eq, ← Definition.readText_eq_ok_iff rules, hlabels] at hdeclared
    cases hdeclared
    rfl
  | @add table declared _ label ih =>
    rw [ih, ofList, ofList, List.foldl_append]
    rfl

theorem Holds.labels_eq (h : table.Holds declared) : table.labels.toList = declared := by
  rw [h.eq_ofList]
  exact (foldl_add declared indexed_empty).2

/-- Tables that are built are those that hold something. -/
theorem built_iff_exists_holds : table.Built ↔ ∃ declared, table.Holds declared := by
  constructor
  · intro h
    induction h with
    | empty => exact ⟨[], .empty⟩
    | @parsed text table h =>
      obtain ⟨labels, hlabels, -⟩ := parse_eq_ok_iff.mp h
      have hdeclared := (Definition.readText_eq_ok_iff rules).mp hlabels
      exact ⟨labels, .parsed h (Text.fallsInto_lines text.toList) hdeclared⟩
    | add _ label ih =>
      obtain ⟨declared, h⟩ := ih
      exact ⟨declared ++ [label], h.add label⟩
  · rintro ⟨declared, h⟩
    induction h with
    | empty => exact .empty
    | parsed h _ _ => exact .parsed h
    | add _ label ih => exact ih.add label

theorem Holds.indexed (h : table.Holds declared) : table.Indexed :=
  (built_iff_exists_holds.mpr ⟨declared, h⟩).indexed

/-! ## 3. What the positions say -/

/-- **The position kept for an address is that of the first label there.** -/
theorem Holds.getElem?_firstAt_iff (h : table.Holds declared) :
    table.firstAt[address]? = some position ↔ IsFirstAt declared address position := by
  rw [h.indexed address, h.labels_eq]
  exact findIdx?_eq_some_iff_isFirstAt

theorem Holds.mem_firstAt_iff (h : table.Holds declared) :
    address ∈ table.firstAt ↔ ∃ label ∈ declared, label.address = address := by
  rw [Std.TreeMap.mem_iff_isSome_getElem?, h.indexed address, h.labels_eq, List.findIdx?_isSome,
    List.any_eq_true]
  exact exists_congr fun label => and_congr_right fun _ => decide_eq_true_iff

/-- **What a table answers is what a walk over the declarations finds.** -/
theorem Holds.nameAt?_eq (h : table.Holds declared) (address : Address) :
    table.nameAt? address = firstName? declared address := by
  rw [h.indexed.nameAt?_eq, h.labels_eq]

/-- **One more label** gives its name to its own address if there was none, and changes no answer
    else. -/
theorem Holds.nameAt?_add (h : table.Holds declared) (label : Label) (address : Address) :
    (table.add label).nameAt? address =
      (table.nameAt? address).or (if label.address = address then some label.name else none) := by
  rw [(h.add label).nameAt?_eq, h.nameAt?_eq, firstName?_concat]

/-- **The positions beside the labels stand for a walk over them.** Let a table come about in any
    way, and let the declarations be in the order in which they were made. The table lists exactly
    these. Every position that it keeps for an address is that of one of its labels, and of the
    first one there; and it keeps one for an address exactly if some label stands there. So the name
    at an address is that of the first label declared there, and likewise in the line of a label and
    in an operand that shows the address. One more label changes no answer for another address, and
    none for an address that has a label. -/
theorem positions_answer_for_labels (h : table.Holds declared) :
    table.labels.toList = declared ∧
    (∀ address position, table.firstAt[address]? = some position ↔
      position < table.labels.size ∧ IsFirstAt declared address position) ∧
    (∀ address, address ∈ table.firstAt ↔ ∃ label ∈ declared, label.address = address) ∧
    (∀ address, table.nameAt? address = firstName? declared address) ∧
    (∀ (d : Disassembler) (address : Address), d.labels = table →
      d.labelLines address = (firstName? declared address).toList.map (· ++ ":")) ∧
    (∀ address, showAddress table (some address) =
      (firstName? declared address).getD (showWord (some address))) ∧
    ∀ (label : Label) (address : Address),
      address ≠ label.address ∨ (∃ other ∈ declared, other.address = address) →
      (table.add label).nameAt? address = table.nameAt? address := by
  have hsize : table.labels.size = declared.length := by
    rw [← Array.length_toList, h.labels_eq]
  refine ⟨h.labels_eq, fun address position => ?_, fun address => h.mem_firstAt_iff, h.nameAt?_eq,
    ?_, fun address => ?_, fun label address hkept => ?_⟩
  · rw [h.getElem?_firstAt_iff, hsize]
    exact (and_iff_right_of_imp IsFirstAt.lt_length).symm
  · rintro d address rfl
    rw [← h.nameAt?_eq]
    rfl
  · rw [← h.nameAt?_eq]
    exact (Fragment.shown_ofValue table (some address)).symm
  · rw [h.nameAt?_add]
    rcases hkept with hother | ⟨other, hmem, haddress⟩
    · rw [if_neg hother.symm, Option.or_none]
    · have hnamed : table.nameAt? address ≠ none := by
        rw [h.nameAt?_eq, Ne, firstName?_eq_none_iff]
        exact fun hnone => hnone other hmem haddress
      obtain ⟨name, hname⟩ := Option.ne_none_iff_exists'.mp hnamed
      rw [hname, Option.some_or]

/-- Two labels of a file at one address, with an empty line between them, and two that are added:
    one at the last address there is, and one more at the address of the first two. -/
theorem positions_answer_for_labels_file :
    let text := "START,2000\n\nLOOP, 2000 \n"
    ∃ file, parse text = .ok file ∧
      let table := (file.add ⟨"START", 0xFFFF⟩).add ⟨"COLD", 0x2000⟩
      let declared : List Label :=
        [⟨"START", 0x2000⟩, ⟨"LOOP", 0x2000⟩, ⟨"START", 0xFFFF⟩, ⟨"COLD", 0x2000⟩]
      table.Holds declared ∧ table.labels.toList = declared ∧
      table.firstAt[(0x2000 : Address)]? = some 0 ∧ table.firstAt[(0xFFFF : Address)]? = some 2 ∧
      (0 : Address) ∉ table.firstAt ∧ table.nameAt? 0x2000 = some "START" ∧
      table.nameAt? 0 = none ∧ showAddress table (some 0xFFFF) = "START" ∧
      (table.add ⟨"AGAIN", 0x2000⟩).nameAt? 0x2000 = table.nameAt? 0x2000 := by
  intro text
  have hread : Definition.readText define text =
      .ok [⟨"START", 0x2000⟩, ⟨"LOOP", 0x2000⟩] := by decide +kernel
  have hparse := parse_eq_ok_iff.mpr ⟨_, hread, rfl⟩
  refine ⟨_, hparse, ?_⟩
  intro table declared
  have hdeclared := (Definition.readText_eq_ok_iff rules).mp hread
  have hholds : table.Holds declared :=
    .add (.add (.parsed hparse (Text.fallsInto_lines text.toList) hdeclared) _) _
  obtain ⟨hlabels, hpositions, hkeys, hnames, -, hoperands, hadded⟩ :=
    positions_answer_for_labels hholds
  refine ⟨hholds, hlabels, (hpositions _ _).mpr ⟨by decide, ⟨"START", 0x2000⟩, rfl, rfl, nofun⟩,
    (hpositions _ _).mpr ⟨by decide, ⟨"START", 0xFFFF⟩, rfl, rfl, by decide⟩,
    mt (hkeys 0).mp (by decide), (hnames _).trans (by decide), (hnames _).trans (by decide),
    (hoperands _).trans (by decide), ?_⟩
  exact hadded _ _ (.inr ⟨⟨"COLD", 0x2000⟩, by decide, rfl⟩)

end Disassembly.LabelTable
