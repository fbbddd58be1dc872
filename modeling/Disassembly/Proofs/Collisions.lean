import Mathlib.Data.Finset.Card
import Mathlib.Data.List.Forall2
import Mathlib.Data.List.Induction
import Disassembly.Opcode

/-!
# Tables and their collisions

A table is built entry by entry. It keeps what the last entry of every opcode says, and beside it a
record of the entries that took the place of an earlier one. This file says what the two have to do
with the entries themselves:

* `Latest`, `Repeats`, `Replaces`: which entry of an opcode counts, which entries define an opcode
  once more, and what the record says of one of these. All three are told from the list of entries
  and the places in it, without a table;
* `Leads`: collisions that lead from one descriptor to another;
* `Records`: everything that a table says of the entries it was built from. One more entry keeps it
  (`Records.insert`), so it is true of every table (`records_build`).
-/

namespace Disassembly

/-! ## 1. Entries and their places -/

/-- `Latest entries opcode entry`: of the entries that define the opcode, this is the last. -/
def Latest (entries : List OpcodeEntry) (opcode : Nat) (entry : OpcodeEntry) : Prop :=
  ∃ front behind, entries = front ++ entry :: behind ∧ entry.opcode = opcode ∧
    ∀ other ∈ behind, other.opcode ≠ opcode

/-- The entry at this place defines an opcode that an entry before it has defined. -/
def Repeats (entries : List OpcodeEntry) (place : Nat) : Prop :=
  ∃ entry, entries[place]? = some entry ∧
    ∃ earlier ∈ entries.take place, earlier.opcode = entry.opcode

/-- The collision is that of the entry at this place with the one that counted just before it. -/
def Replaces (entries : List OpcodeEntry) (place : Nat) (collision : Collision) : Prop :=
  ∃ entry earlier, entries[place]? = some entry ∧
    Latest (entries.take place) entry.opcode earlier ∧
    collision = { opcode := entry.opcode, replaced := earlier.toDescriptor
                  kept := entry.toDescriptor }

variable {entries : List OpcodeEntry} {entry last : OpcodeEntry} {opcode place : Nat}
  {collision : Collision}

theorem Latest.mem (h : Latest entries opcode entry) : entry ∈ entries ∧ entry.opcode = opcode := by
  obtain ⟨front, behind, rfl, hopcode, -⟩ := h
  exact ⟨List.mem_append_cons_self, hopcode⟩

/-- An entry behind all others is the last one of its own opcode, and of no other. -/
theorem latest_concat_iff : Latest (entries ++ [last]) opcode entry ↔
    if last.opcode = opcode then entry = last else Latest entries opcode entry := by
  constructor
  · rintro ⟨front, behind, hentries, hopcode, hbehind⟩
    rcases List.eq_nil_or_concat behind with rfl | ⟨others, other, rfl⟩
    · obtain ⟨rfl, hlast⟩ := List.append_inj' hentries rfl
      cases hlast
      rw [if_pos hopcode]
    · rw [List.concat_eq_append] at hentries hbehind
      rw [← List.cons_append, ← List.append_assoc] at hentries
      obtain ⟨rfl, hlast⟩ := List.append_inj' hentries rfl
      cases hlast
      rw [if_neg (hbehind last List.mem_concat_self)]
      exact ⟨front, others, rfl, hopcode,
        fun other hother => hbehind other (List.mem_append_left _ hother)⟩
  · split
    · rename_i hopcode
      rintro rfl
      exact ⟨entries, [], rfl, hopcode, nofun⟩
    · rename_i hopcode
      rintro ⟨front, behind, rfl, hentry, hbehind⟩
      refine ⟨front, behind ++ [last], by simp, hentry, fun other hother => ?_⟩
      rcases List.mem_append.mp hother with hother | hother
      · exact hbehind other hother
      · exact List.mem_singleton.mp hother ▸ hopcode

/-- What a place holds, and what stands before it, does not depend on what is added behind. -/
theorem getElem?_and_take_concat (h : place < entries.length) (last : OpcodeEntry) :
    (entries ++ [last])[place]? = entries[place]? ∧
      (entries ++ [last]).take place = entries.take place :=
  ⟨List.getElem?_append_left h, List.take_append_of_le_length (Nat.le_of_lt h)⟩

theorem getElem?_and_take_length (entries : List OpcodeEntry) (last : OpcodeEntry) :
    (entries ++ [last])[entries.length]? = some last ∧
      (entries ++ [last]).take entries.length = entries :=
  ⟨List.getElem?_concat_length, List.take_left⟩

theorem Repeats.lt_length (h : Repeats entries place) : place < entries.length := by
  obtain ⟨entry, hentry, -⟩ := h
  exact (List.getElem?_eq_some_iff.mp hentry).1

theorem Replaces.lt_length (h : Replaces entries place collision) : place < entries.length := by
  obtain ⟨entry, earlier, hentry, -⟩ := h
  exact (List.getElem?_eq_some_iff.mp hentry).1

theorem Replaces.concat (h : Replaces entries place collision) (last : OpcodeEntry) :
    Replaces (entries ++ [last]) place collision := by
  obtain ⟨hplace, htake⟩ := getElem?_and_take_concat h.lt_length last
  unfold Replaces
  rw [hplace, htake]
  exact h

/-- A collision is about an opcode that some entry defines. -/
theorem Replaces.exists_mem (h : Replaces entries place collision) :
    ∃ entry ∈ entries, entry.opcode = collision.opcode := by
  obtain ⟨entry, earlier, hentry, -, rfl⟩ := h
  exact ⟨entry, List.mem_of_getElem? hentry, rfl⟩

theorem repeats_concat_iff : Repeats (entries ++ [last]) place ↔
    Repeats entries place ∨
      place = entries.length ∧ ∃ earlier ∈ entries, earlier.opcode = last.opcode := by
  rcases Nat.lt_trichotomy place entries.length with hlt | rfl | hgt
  · obtain ⟨hplace, htake⟩ := getElem?_and_take_concat hlt last
    unfold Repeats
    rw [hplace, htake]
    exact ⟨Or.inl, fun h => h.resolve_right fun hlast => Nat.ne_of_lt hlt hlast.1⟩
  · obtain ⟨hplace, htake⟩ := getElem?_and_take_length entries last
    constructor
    · rintro ⟨entry, hentry, hearlier⟩
      rw [hplace] at hentry
      cases hentry
      rw [htake] at hearlier
      exact Or.inr ⟨rfl, hearlier⟩
    · rintro (hrepeats | ⟨-, hearlier⟩)
      · exact absurd hrepeats.lt_length (Nat.lt_irrefl _)
      · exact ⟨last, hplace, htake.symm ▸ hearlier⟩
  · refine iff_of_false (fun hrepeats => ?_) ?_
    · have hlt := hrepeats.lt_length
      rw [List.length_append, List.length_singleton] at hlt
      omega
    · rintro (hrepeats | ⟨rfl, -⟩)
      · exact absurd hrepeats.lt_length (Nat.not_lt.mpr (Nat.le_of_lt hgt))
      · exact absurd hgt (Nat.lt_irrefl _)

/-! ## 2. Chains of collisions -/

/-- `Leads first collisions last`: the collisions lead from one descriptor to another. Each replaces
    what was there when it came about, and what it keeps is there afterwards. -/
inductive Leads : Descriptor → List Collision → Descriptor → Prop where
  | refl (descriptor : Descriptor) : Leads descriptor [] descriptor
  | concat {first : Descriptor} {collisions : List Collision} {collision : Collision}
      (h : Leads first collisions collision.replaced) :
      Leads first (collisions ++ [collision]) collision.kept

namespace InstructionTable

/-! ## 3. One more entry -/

variable {table : InstructionTable}

theorem get?_empty (opcode : Nat) : ({} : InstructionTable).get? opcode = none :=
  Std.TreeMap.getElem?_emptyc

theorem get?_insert (table : InstructionTable) (entry : OpcodeEntry) (opcode : Nat) :
    (table.insert entry).get? opcode =
      if entry.opcode = opcode then some entry.toDescriptor else table.get? opcode := by
  unfold get? insert
  rw [Std.TreeMap.getElem?_insert]
  exact if_congr Std.LawfulEqCmp.compare_eq_iff_eq rfl rfl

/-- A new opcode makes the table larger, and no collision. -/
theorem insert_of_none (h : table.get? entry.opcode = none) :
    (table.insert entry).size = table.size + 1 ∧
      (table.insert entry).collisions = table.collisions := by
  have hnew : table.descriptors.contains entry.opcode = false := by
    rw [Std.TreeMap.contains_eq_isSome_getElem?]
    exact congrArg Option.isSome h
  refine ⟨?_, ?_⟩
  · unfold size insert
    rw [Std.TreeMap.size_insert, hnew]
    rfl
  · unfold insert
    rw [h]

/-- An opcode that was there makes a collision behind all others, and the table no larger. -/
theorem insert_of_some {replaced : Descriptor} (h : table.get? entry.opcode = some replaced) :
    (table.insert entry).size = table.size ∧
      (table.insert entry).collisions = table.collisions ++
        [{ opcode := entry.opcode, replaced, kept := entry.toDescriptor }] := by
  have hold : table.descriptors.contains entry.opcode = true := by
    rw [Std.TreeMap.contains_eq_isSome_getElem?]
    exact congrArg Option.isSome h
  refine ⟨?_, ?_⟩
  · unfold size insert
    rw [Std.TreeMap.size_insert, hold]
    rfl
  · unfold insert
    rw [h]

theorem filter_collisions_insert_of_some {replaced : Descriptor}
    (h : table.get? entry.opcode = some replaced) :
    (table.insert entry).collisions.filter (·.opcode = entry.opcode) =
      table.collisions.filter (·.opcode = entry.opcode) ++
        [{ opcode := entry.opcode, replaced, kept := entry.toDescriptor }] := by
  rw [(insert_of_some h).2, List.filter_append]
  simp

/-- An entry makes no collision but of its own opcode. -/
theorem filter_collisions_insert_of_ne (table : InstructionTable) (h : entry.opcode ≠ opcode) :
    (table.insert entry).collisions.filter (·.opcode = opcode) =
      table.collisions.filter (·.opcode = opcode) := by
  cases hget : table.get? entry.opcode with
  | none => rw [(insert_of_none hget).2]
  | some replaced =>
    rw [(insert_of_some hget).2, List.filter_append]
    simp [h]

/-! ## 4. What a table says of its entries -/

/-- What a table says of the entries that it was built from, in the order in which they came. -/
structure Records (table : InstructionTable) (entries : List OpcodeEntry) : Prop where
  /-- Of every opcode it knows what the last entry says that defines it. -/
  get?_eq_some_iff : ∀ opcode descriptor, table.get? opcode = some descriptor ↔
    ∃ entry, Latest entries opcode entry ∧ entry.toDescriptor = descriptor
  get?_eq_none_iff : ∀ opcode, table.get? opcode = none ↔ ∀ entry ∈ entries, entry.opcode ≠ opcode
  /-- It is as large as there are different opcodes. -/
  size_eq : table.size = (entries.map (·.opcode)).toFinset.card
  /-- Every entry defines a new opcode or collides. -/
  size_add : table.size + table.collisions.length = entries.length
  /-- The collisions are those of the entries that repeat an opcode, one each and in their order. -/
  collisions : ∃ places : List Nat, places.Pairwise (· < ·) ∧
    (∀ place, place ∈ places ↔ Repeats entries place) ∧
    List.Forall₂ (Replaces entries) places table.collisions
  /-- Those of one opcode lead from its first definition to the one that the table knows. -/
  leads : ∀ opcode first, entries.find? (·.opcode = opcode) = some first →
    ∃ descriptor, table.get? opcode = some descriptor ∧
      Leads first.toDescriptor (table.collisions.filter (·.opcode = opcode)) descriptor

namespace Records

/-- The empty table is built from no entries. -/
theorem empty : ({} : InstructionTable).Records [] where
  get?_eq_some_iff opcode descriptor := by
    rw [get?_empty]
    refine iff_of_false nofun ?_
    rintro ⟨entry, ⟨front, behind, hentries, -⟩, -⟩
    simp at hentries
  get?_eq_none_iff opcode := iff_of_true (get?_empty opcode) nofun
  size_eq := rfl
  size_add := rfl
  collisions := by
    refine ⟨[], .nil, fun place => iff_of_false List.not_mem_nil fun hrepeats => ?_, .nil⟩
    exact absurd hrepeats.lt_length (Nat.not_lt_zero place)
  leads opcode first hfirst := by cases hfirst

variable (h : table.Records entries) (last : OpcodeEntry)
include h

theorem insert_get?_eq_some_iff (opcode : Nat) (descriptor : Descriptor) :
    (table.insert last).get? opcode = some descriptor ↔
      ∃ entry, Latest (entries ++ [last]) opcode entry ∧ entry.toDescriptor = descriptor := by
  simp only [get?_insert, latest_concat_iff]
  split
  · simp
  · exact h.get?_eq_some_iff opcode descriptor

theorem insert_get?_eq_none_iff (opcode : Nat) :
    (table.insert last).get? opcode = none ↔
      ∀ entry ∈ entries ++ [last], entry.opcode ≠ opcode := by
  rw [get?_insert, List.forall_mem_append, List.forall_mem_singleton]
  split
  · rename_i hopcode
    exact iff_of_false nofun fun hother => hother.2 hopcode
  · rename_i hopcode
    rw [h.get?_eq_none_iff, and_iff_left hopcode]

theorem insert_size :
    (table.insert last).size = ((entries ++ [last]).map (·.opcode)).toFinset.card ∧
      (table.insert last).size + (table.insert last).collisions.length =
        (entries ++ [last]).length := by
  have hadd := h.size_add
  have hset : ((entries ++ [last]).map (·.opcode)).toFinset =
      Insert.insert last.opcode (entries.map (·.opcode)).toFinset := by
    rw [List.map_append, List.toFinset_append, List.map_singleton, Finset.union_comm]
    rfl
  rw [hset, List.length_append, List.length_singleton]
  cases hget : table.get? last.opcode with
  | none =>
    have hnew : last.opcode ∉ (entries.map (·.opcode)).toFinset := by
      rw [List.mem_toFinset, List.mem_map]
      rintro ⟨entry, hentry, hopcode⟩
      exact (h.get?_eq_none_iff last.opcode).mp hget entry hentry hopcode
    obtain ⟨hsize, hcollisions⟩ := insert_of_none hget
    rw [hsize, hcollisions, Finset.card_insert_of_notMem hnew, h.size_eq]
    rw [h.size_eq] at hadd
    omega
  | some replaced =>
    obtain ⟨earlier, hlatest, -⟩ := (h.get?_eq_some_iff last.opcode replaced).mp hget
    have hold : last.opcode ∈ (entries.map (·.opcode)).toFinset :=
      List.mem_toFinset.mpr (List.mem_map.mpr ⟨earlier, hlatest.mem⟩)
    obtain ⟨hsize, hcollisions⟩ := insert_of_some hget
    rw [hsize, hcollisions, Finset.insert_eq_of_mem hold, List.length_append, List.length_singleton]
    exact ⟨h.size_eq, by omega⟩

theorem insert_collisions : ∃ places : List Nat, places.Pairwise (· < ·) ∧
    (∀ place, place ∈ places ↔ Repeats (entries ++ [last]) place) ∧
    List.Forall₂ (Replaces (entries ++ [last])) places (table.insert last).collisions := by
  obtain ⟨places, hsorted, hplaces, hreplaces⟩ := h.collisions
  have hkept := hreplaces.imp fun _ _ hreplaces => hreplaces.concat last
  cases hget : table.get? last.opcode with
  | none =>
    refine ⟨places, hsorted, fun place => ?_, (insert_of_none hget).2 ▸ hkept⟩
    rw [hplaces, repeats_concat_iff, or_iff_left]
    rintro ⟨-, earlier, hearlier, hopcode⟩
    exact (h.get?_eq_none_iff last.opcode).mp hget earlier hearlier hopcode
  | some replaced =>
    obtain ⟨earlier, hlatest, rfl⟩ := (h.get?_eq_some_iff last.opcode replaced).mp hget
    obtain ⟨hplace, htake⟩ := getElem?_and_take_length entries last
    have hlast : Replaces (entries ++ [last]) entries.length
        { opcode := last.opcode, replaced := earlier.toDescriptor, kept := last.toDescriptor } :=
      ⟨last, earlier, hplace, htake.symm ▸ hlatest, rfl⟩
    have hearlier : ∃ earlier ∈ entries, earlier.opcode = last.opcode := ⟨earlier, hlatest.mem⟩
    refine ⟨places ++ [entries.length], ?_, fun place => ?_, ?_⟩
    · refine List.pairwise_append.mpr ⟨hsorted, List.pairwise_singleton _ _, fun place hplace => ?_⟩
      rw [List.forall_mem_singleton]
      exact ((hplaces place).mp hplace).lt_length
    · rw [List.mem_append, hplaces, List.mem_singleton, repeats_concat_iff, and_iff_left hearlier]
    · rw [(insert_of_some hget).2]
      exact List.rel_append hkept (.cons hlast .nil)

/-- No collision is about an opcode that no entry defines. -/
theorem filter_collisions_eq_nil {opcode : Nat} (hnew : ∀ entry ∈ entries, entry.opcode ≠ opcode) :
    table.collisions.filter (·.opcode = opcode) = [] := by
  obtain ⟨places, -, -, hreplaces⟩ := h.collisions
  rw [List.filter_eq_nil_iff]
  intro collision hcollision hopcode
  obtain ⟨⟨index, hindex⟩, rfl⟩ := List.mem_iff_get.mp hcollision
  obtain ⟨entry, hentry, hsame⟩ :=
    (hreplaces.get (hreplaces.length_eq.symm ▸ hindex) hindex).exists_mem
  exact hnew entry hentry (hsame.trans (of_decide_eq_true hopcode))

theorem insert_leads (opcode : Nat) (first : OpcodeEntry)
    (hfirst : (entries ++ [last]).find? (·.opcode = opcode) = some first) :
    ∃ descriptor, (table.insert last).get? opcode = some descriptor ∧
      Leads first.toDescriptor ((table.insert last).collisions.filter (·.opcode = opcode))
        descriptor := by
  rw [List.find?_append] at hfirst
  rw [get?_insert]
  cases hfind : entries.find? (·.opcode = opcode) with
  | none =>
    rw [hfind, Option.none_or] at hfirst
    obtain rfl := List.mem_singleton.mp (List.mem_of_find?_eq_some hfirst)
    have hopcode := List.find?_some hfirst
    obtain rfl : first.opcode = opcode := of_decide_eq_true hopcode
    have hnew : ∀ entry ∈ entries, entry.opcode ≠ first.opcode := by
      simpa using hfind
    rw [if_pos rfl, (insert_of_none ((h.get?_eq_none_iff _).mpr hnew)).2,
      h.filter_collisions_eq_nil hnew]
    exact ⟨_, rfl, .refl _⟩
  | some other =>
    rw [hfind, Option.some_or] at hfirst
    cases hfirst
    obtain ⟨descriptor, hget, hleads⟩ := h.leads opcode first hfind
    by_cases hopcode : last.opcode = opcode
    · subst hopcode
      rw [if_pos rfl, filter_collisions_insert_of_some hget]
      exact ⟨_, rfl, .concat hleads⟩
    · rw [if_neg hopcode, filter_collisions_insert_of_ne table hopcode]
      exact ⟨descriptor, hget, hleads⟩

/-- **One more entry is recorded like all others.** -/
theorem insert : (table.insert last).Records (entries ++ [last]) where
  get?_eq_some_iff := h.insert_get?_eq_some_iff last
  get?_eq_none_iff := h.insert_get?_eq_none_iff last
  size_eq := (h.insert_size last).1
  size_add := (h.insert_size last).2
  collisions := h.insert_collisions last
  leads := h.insert_leads last

end Records

theorem records_foldl_insert (entries : List OpcodeEntry) :
    (entries.foldl insert {}).Records entries := by
  induction entries using List.reverseRecOn with
  | nil => exact .empty
  | append_singleton entries last ih =>
    rw [List.foldl_concat]
    exact ih.insert last

/-- **What a table keeps of the layers it is built from.** Take the entries of all layers in their
    order. The table knows of every opcode what the last entry says that defines it, and nothing of
    an opcode that no entry defines; there are as many opcodes in it as different ones among the
    entries, and with the collisions they are as many as the entries. The collisions are, in their
    order, those of the entries that define an opcode once more: each names this opcode, what the
    entry that counted just before said of it, and what the new one says. So those of one opcode
    lead from its first definition to the one in the table. -/
theorem records_build (layers : List (List OpcodeEntry)) :
    (build layers).Records layers.flatten :=
  records_foldl_insert layers.flatten

-- Two definitions in one layer and a third in the next: every one but the first collides.
example :
    let halt : OpcodeEntry := { opcode := 0x80, length := 1, mnemonic := "hlt", mode := "implied" }
    let skip : OpcodeEntry := { opcode := 0x80, length := 2, mnemonic := "nop", mode := "imm8" }
    let branch : OpcodeEntry := { opcode := 0x80, length := 2, mnemonic := "bra", mode := "rel8" }
    (build [[halt, skip], [branch]]).collisions =
      [⟨0x80, halt.toDescriptor, skip.toDescriptor⟩,
        ⟨0x80, skip.toDescriptor, branch.toDescriptor⟩] := by decide

end InstructionTable

end Disassembly
