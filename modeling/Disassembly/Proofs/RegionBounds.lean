import Disassembly.Proofs.Units
import Disassembly.Proofs.Resumption

/-!
# Data and the ends of its region

A unit of data is read where the cursor lies in a region, and how long it is depends on the kind of
the region. What is left of the region at the cursor (`Region.room`) bounds the unit, with one
exception: a word at the last address reaches beyond the region by one byte (`Region.Overhangs`,
`Region.unitLength_le_room`, `Region.unitLength_of_overhangs`).

So a run into a region that governs its addresses (`exists_passage_into`) takes the bytes of the
region and leaves it at the address behind it, unless it reads words of an odd number of bytes: then
it takes one byte more (`Region.span`).
-/

namespace Disassembly

/-! ## 1. Room -/

/-- Whether the units of the kind are words. -/
def DataKind.isWord : DataKind → Bool
  | wordBigEndian | wordLittleEndian => true
  | ascii | byte | string => false

namespace Region

variable {region : Region} {address : Address}

/-- A unit that is one of the region: it stands there, and shows its bytes as the region wants. -/
def IsUnit (region : Region) (unit : Line) : Prop :=
  region.contains unit.address = true ∧ unit = region.kind.line unit.address unit.bytes

/-- How many bytes of the region there are from an address of it on. -/
def room (region : Region) (address : Address) : Nat :=
  region.last.toNat - address.toNat + 1

/-- The region is one of words, and the address its last one. -/
def Overhangs (region : Region) (address : Address) : Prop :=
  region.kind.isWord = true ∧ address = region.last

instance (region : Region) (address : Address) : Decidable (region.Overhangs address) :=
  inferInstanceAs (Decidable (_ ∧ _))

theorem contains_iff :
    region.contains address = true ↔
      region.first.toNat ≤ address.toNat ∧ address.toNat ≤ region.last.toNat := by
  simp [contains, UInt16.le_iff_toNat_le]

theorem unitLength_of_isWord (address : Address) (h : region.kind.isWord = true) :
    region.unitLength address = 2 := by
  unfold unitLength
  cases hkind : region.kind with
  | wordBigEndian => rfl
  | wordLittleEndian => rfl
  | ascii => rw [hkind] at h; cases h
  | byte => rw [hkind] at h; cases h
  | string => rw [hkind] at h; cases h

/-- Units other than words fit into what is left of the region, whatever that is. -/
theorem unitLength_le_of_not_isWord (address : Address) (h : region.kind.isWord = false) :
    region.unitLength address ≤ region.room address := by
  unfold unitLength room
  cases hkind : region.kind with
  | wordBigEndian => rw [hkind] at h; cases h
  | wordLittleEndian => rw [hkind] at h; cases h
  | ascii => exact Nat.le_add_left 1 _
  | byte => exact Nat.le_add_left 1 _
  | string => exact Nat.le_refl _

/-- **A unit stays inside its region**, unless it is a word at the last address. -/
theorem unitLength_le_room (hcontains : region.contains address = true)
    (h : ¬ region.Overhangs address) : region.unitLength address ≤ region.room address := by
  obtain ⟨-, hlast⟩ := contains_iff.mp hcontains
  cases hword : region.kind.isWord with
  | false => exact unitLength_le_of_not_isWord address hword
  | true =>
    have hne : address.toNat ≠ region.last.toNat :=
      fun heq => h ⟨hword, UInt16.toNat_inj.mp heq⟩
    rw [unitLength_of_isWord address hword, room]
    omega

/-- A word at the last address takes one byte more than there is of the region. -/
theorem unitLength_of_overhangs (h : region.Overhangs address) :
    region.room address = 1 ∧ region.unitLength address = 2 := by
  obtain ⟨hword, rfl⟩ := h
  exact ⟨by rw [room, Nat.sub_self], unitLength_of_isWord _ hword⟩

/-- How many bytes the units of the region take from an address of it on: what is left of the
    region, and for words one more if that is odd. -/
def span (region : Region) (address : Address) : Nat :=
  region.room address + if region.kind.isWord then region.room address % 2 else 0

theorem span_of_not_isWord (address : Address) (h : region.kind.isWord = false) :
    region.span address = region.room address := by
  rw [span, h]
  rfl

theorem span_of_isWord (address : Address) (h : region.kind.isWord = true) :
    region.span address = region.room address + region.room address % 2 := by
  rw [span, h]
  rfl

/-- Where a unit does not reach the end of its region, the cursor behind it is in the region again,
    and the units from there on take what the unit has left of the span. -/
theorem advance_unitLength (hcontains : region.contains address = true)
    (h : region.unitLength address < region.room address) :
    region.contains (address.advance (region.unitLength address)) = true ∧
    region.room (address.advance (region.unitLength address)) + region.unitLength address =
      region.room address ∧
    region.span (address.advance (region.unitLength address)) + region.unitLength address =
      region.span address := by
  obtain ⟨hfirst, hlast⟩ := contains_iff.mp hcontains
  have hbound := region.last.toNat_lt
  have hnext : (address.advance (region.unitLength address)).toNat =
      address.toNat + region.unitLength address := by
    rw [Address.toNat_advance]
    unfold room at h
    omega
  have hroom : region.room (address.advance (region.unitLength address)) +
      region.unitLength address = region.room address := by
    unfold room at h ⊢
    rw [hnext]
    omega
  refine ⟨?_, hroom, ?_⟩
  · rw [contains_iff, hnext]
    unfold room at h
    omega
  · cases hword : region.kind.isWord with
    | false => rw [span_of_not_isWord _ hword, span_of_not_isWord _ hword, hroom]
    | true =>
      have hlength := unitLength_of_isWord address hword
      rw [hlength] at hroom
      rw [span_of_isWord _ hword, span_of_isWord _ hword, hlength]
      omega

/-- The last unit of a region takes what is left of the span. -/
theorem span_eq_unitLength (h : region.room address ≤ region.unitLength address) :
    region.span address = region.unitLength address := by
  cases hword : region.kind.isWord with
  | false =>
    rw [span_of_not_isWord address hword]
    exact Nat.le_antisymm h (unitLength_le_of_not_isWord address hword)
  | true =>
    have hlength := unitLength_of_isWord address hword
    have hpos : 1 ≤ region.room address := Nat.le_add_left 1 _
    rw [hlength] at h
    rw [span_of_isWord address hword, hlength]
    omega

/-- The next unit is part of the span. -/
theorem unitLength_le_span (region : Region) (address : Address) :
    region.unitLength address ≤ region.span address := by
  by_cases h : region.room address ≤ region.unitLength address
  · exact Nat.le_of_eq (span_eq_unitLength h).symm
  · exact Nat.le_trans (Nat.le_of_lt (Nat.lt_of_not_le h)) (Nat.le_add_right _ _)

/-- The last address is as far from the first one as there is room behind it. -/
theorem advance_room (horder : region.first ≤ region.last) :
    region.first.advance (region.room region.first - 1) = region.last := by
  have hle := UInt16.le_iff_toNat_le.mp horder
  have hlt := region.last.toNat_lt
  apply UInt16.toNat_inj.mp
  rw [Address.toNat_advance, room]
  omega

end Region

namespace Disassembler

variable {d : Disassembler} {region : Region} {cursor : Address}

/-! ## 2. Through a region -/

theorem contains_of_at? (h : d.regions.at? cursor = some region) :
    region.contains cursor = true := by
  have hfound := List.find?_some (show d.regions.find? (·.contains cursor) = _ from h)
  exact hfound

/-- Where a region governs the cursor and there are bytes enough, the next unit is one of it. -/
theorem scan?_of_governs {bytes : List UInt8} (hregion : d.regions.at? cursor = some region)
    (h : region.unitLength cursor ≤ bytes.length) :
    d.scan? cursor bytes = some
      { reading := .line (region.kind.line cursor (bytes.take (region.unitLength cursor)))
        taken := bytes.take (region.unitLength cursor) } := by
  unfold scan?
  rw [hregion]
  exact if_pos h

/-- A unit that is settled where a region governs is the unit of that region. -/
theorem Settles.unit_of_region {unit : Line} (h : d.Settles unit)
    (hregion : d.regions.at? unit.address = some region) :
    unit.bytes.length = region.unitLength unit.address ∧
      unit = region.kind.line unit.address unit.bytes := by
  unfold Settles scan? at h
  rw [hregion] at h
  simp only [Region.scan?] at h
  split at h
  · rename_i hle
    obtain ⟨hline, htaken⟩ := Scan.mk.inj (Option.some.inj h)
    have hlength := congrArg List.length htaken
    rw [List.length_take] at hlength
    rw [htaken] at hline
    exact ⟨by omega, (Reading.line.inj hline).symm⟩
  · cases h

/-- **A passage into a region that governs its addresses**: its units are units of the region, and
    it goes on until they have taken the span, or until there are not bytes enough for the next. -/
theorem exists_passage_into
    (hgoverns : ∀ address, region.contains address = true → d.regions.at? address = some region)
    (bytes : List UInt8) (hcontains : region.contains cursor = true) :
    ∃ units count, d.Passage cursor bytes units (cursor.advance count) (bytes.drop count) ∧
      (∀ unit ∈ units, region.IsUnit unit) ∧
      count ≤ bytes.length ∧
      (count = region.span cursor ∨
        region.contains (cursor.advance count) = true ∧
        region.span (cursor.advance count) + count = region.span cursor ∧
        bytes.length < count + region.unitLength (cursor.advance count)) := by
  induction hn : region.room cursor using Nat.strongRecOn generalizing cursor bytes with
  | _ n ih =>
    subst hn
    by_cases henough : region.unitLength cursor ≤ bytes.length
    · have hscan := scan?_of_governs (hgoverns cursor hcontains) henough
      have hlength : (bytes.take (region.unitLength cursor)).length = region.unitLength cursor := by
        rw [List.length_take]
        omega
      by_cases hlast : region.room cursor ≤ region.unitLength cursor
      · -- the unit takes the rest of the region
        refine ⟨[_], region.unitLength cursor, Passage.cons hscan ?_, fun unit hunit => ?_, henough,
          Or.inl (Region.span_eq_unitLength hlast).symm⟩
        · rw [DataKind.line, hlength]
          exact .refl _ _
        · cases List.mem_singleton.mp hunit
          exact ⟨hcontains, rfl⟩
      · -- the region goes on behind the unit
        obtain ⟨hnext, hroom, hrest⟩ :=
          Region.advance_unitLength hcontains (Nat.lt_of_not_le hlast)
        have hpos := region.unitLength_pos cursor
        obtain ⟨units, count, hpassage, hunits, hle, hstop⟩ :=
          ih _ (by omega) (bytes.drop (region.unitLength cursor)) hnext rfl
        rw [List.length_drop] at hle
        rw [Address.advance_advance] at hstop
        rw [Address.advance_advance, List.drop_drop] at hpassage
        refine ⟨_ :: units, region.unitLength cursor + count, Passage.cons hscan ?_,
          fun unit hunit => ?_, by omega, ?_⟩
        · rw [DataKind.line, hlength]
          exact hpassage
        · rcases List.mem_cons.mp hunit with rfl | hunit
          · exact ⟨hcontains, rfl⟩
          · exact hunits unit hunit
        · rcases hstop with hcount | ⟨hinside, hspan, hshort⟩
          · exact Or.inl (by omega)
          · rw [List.length_drop] at hshort
            exact Or.inr ⟨hinside, by omega, by omega⟩
    · refine ⟨[], 0, ?_, by simp, Nat.zero_le _, Or.inr ?_⟩
      · rw [Address.advance_zero]
        exact .refl cursor bytes
      · rw [Address.advance_zero]
        exact ⟨hcontains, rfl, by omega⟩

/-! ## 3. Runs -/

/-- A region that is the only one governs its addresses. -/
theorem governs_of_only (h : d.regions = [region]) (address : Address)
    (hcontains : region.contains address = true) : d.regions.at? address = some region := by
  rw [h]
  exact List.find?_cons_of_pos hcontains

/-- A unit that is shown and read in a region is as long as the region wants, or it is a string that
    the data cut short. -/
theorem length_bytes_of_mem_emitted {source : Source} {stopAfter : Option Nat} {unit : Line}
    (h : unit ∈ (d.trace source stopAfter).emitted)
    (hregion : d.regions.at? unit.address = some region) :
    unit.bytes.length = region.unitLength unit.address ∨
      region.kind = .string ∧ unit.bytes.length < region.unitLength unit.address := by
  rcases (d.trace source stopAfter).emitted_cases with hshown | ⟨part, hending, hshown⟩
  · rw [hshown] at h
    exact Or.inl ((settles_of_mem_units h).unit_of_region hregion).1
  · rw [hshown] at h
    rcases List.mem_append.mp h with h | h
    · exact Or.inl ((settles_of_mem_units h).unit_of_region hregion).1
    · cases List.mem_singleton.mp h
      obtain ⟨haddress, other, hother, hkind, hshort⟩ := cutShort_of_ending hending
      rw [← haddress] at hother hshort
      cases hregion.symm.trans hother
      exact Or.inr ⟨hkind, hshort⟩

/-- A run that starts where its only region does passes into the region first. -/
theorem trace_into_region (hregions : d.regions = [region]) (horder : region.first ≤ region.last)
    (hstart : d.start = region.first) (bytes : List UInt8) :
    ∃ units count, (∀ unit ∈ units, region.IsUnit unit) ∧
      units.flatMap (·.bytes) = bytes.take count ∧
      d.trace (.ofBytes bytes) =
        (d.walk none (region.first.advance count) (.ofBytes (bytes.drop count))).after units ∧
      count ≤ bytes.length ∧
      (count = region.span region.first ∨
        region.contains (region.first.advance count) = true ∧
        region.span (region.first.advance count) + count = region.span region.first ∧
        bytes.length < count + region.unitLength (region.first.advance count)) := by
  have hcontains : region.contains region.first = true := by
    rw [Region.contains_iff]
    exact ⟨Nat.le_refl _, UInt16.le_iff_toNat_le.mp horder⟩
  obtain ⟨units, count, hpassage, hunits, hle, hstop⟩ :=
    exists_passage_into (governs_of_only hregions) bytes hcontains
  refine ⟨units, count, hunits, ?_, ?_, hle, hstop⟩
  · have hbytes := (List.take_append_drop count bytes).trans hpassage.bytes_eq
    exact (List.append_cancel_right hbytes).symm
  · have hwalk := walk_append hpassage []
    rw [List.append_nil, List.append_nil] at hwalk
    rw [trace, hstart]
    exact hwalk

/-- One byte is not enough for a word. -/
theorem ending_of_cut_word (bytes : List UInt8) (hregion : d.regions.at? cursor = some region)
    (hword : region.kind.isWord = true) (hshort : bytes.length < 2) :
    (d.walk none cursor (.ofBytes bytes)).ending = .truncated none := by
  have hscan : d.scan? cursor bytes = none := by
    unfold scan?
    rw [hregion]
    exact if_neg (by rw [Region.unitLength_of_isWord cursor hword]; omega)
  have hcut : region.cutLine cursor bytes = none := by
    refine if_neg fun hstring => ?_
    rw [hstring.1] at hword
    cases hword
  have hending : (d.shortfall cursor bytes).ending? = some (.truncated none) := by
    unfold shortfall
    rw [hregion]
    exact congrArg (fun part => some (Ending.truncated part)) hcut
  rw [walk_of_ends (.data (by rw [Source.ahead_ofBytes]; exact hscan)
    (Source.faultAhead_ofBytes bytes) (by rw [Source.ahead_ofBytes]; exact hending))]

/-- **Data stays inside its region, unless it is a word at the last address.** A unit that is shown
    takes no more than is left of the region that governs its address; a word at the last address
    takes one byte more. And where a run begins with its only region, its first units are units of
    the region and have exactly the bytes of the region, and decoding goes on at the address behind
    it; unless it is a region of words with an odd number of bytes. Then the last word takes the
    byte behind the region, and decoding goes on one address further; if there is no such byte, the
    data is cut short inside that word. -/
theorem data_units_in_region (d : Disassembler) :
    (∀ source stopAfter, ∀ unit ∈ (d.trace source stopAfter).emitted, ∀ region,
      d.regions.at? unit.address = some region →
      unit.bytes.length ≤ region.room unit.address ∨
        region.Overhangs unit.address ∧ unit.bytes.length = region.room unit.address + 1) ∧
    ∀ region bytes, d.regions = [region] → region.first ≤ region.last →
      d.start = region.first → region.room region.first ≤ bytes.length →
      let size := region.room region.first
      let odd := region.kind.isWord = true ∧ size % 2 = 1
      ∃ front count, (∀ unit ∈ front, region.IsUnit unit) ∧
        front.flatMap (·.bytes) = bytes.take count ∧
        d.trace (.ofBytes bytes) =
          (d.walk none (region.first.advance count) (.ofBytes (bytes.drop count))).after front ∧
        (¬ odd → count = size ∧ region.first.advance count = region.last + 1) ∧
        (odd → size < bytes.length →
          count = size + 1 ∧ region.first.advance count = region.last + 2) ∧
        (odd → bytes.length = size → count + 1 = size ∧ region.first.advance count = region.last ∧
          (d.trace (.ofBytes bytes)).ending = .truncated none) := by
  constructor
  · intro source stopAfter unit hunit region hregion
    rcases length_bytes_of_mem_emitted hunit hregion with hlength | ⟨hkind, hshort⟩
    · by_cases hover : region.Overhangs unit.address
      · obtain ⟨hroom, htwo⟩ := Region.unitLength_of_overhangs hover
        exact Or.inr ⟨hover, by omega⟩
      · exact Or.inl (hlength ▸ Region.unitLength_le_room (contains_of_at? hregion) hover)
    · have hword : region.kind.isWord = false := by rw [hkind]; rfl
      have hle := Region.unitLength_le_of_not_isWord unit.address hword
      exact Or.inl (by omega)
  · intro region bytes hregions horder hstart henough size odd
    obtain ⟨front, count, hfront, hbytes, htrace, hle, hstop⟩ :=
      trace_into_region hregions horder hstart bytes
    have hwhole : region.span region.first ≤ bytes.length → count = region.span region.first := by
      intro hspan
      rcases hstop with hcount | ⟨-, hrest, hshort⟩
      · exact hcount
      · have hunit := region.unitLength_le_span (region.first.advance count)
        omega
    have hbehind : ∀ more, region.first.advance (size - 1 + more) =
        region.last.advance more := by
      intro more
      rw [← Address.advance_advance, Region.advance_room horder]
    refine ⟨front, count, hfront, hbytes, htrace, fun hodd => ?_, fun hodd hmore => ?_,
      fun hodd hend => ?_⟩
    · have hspan : region.span region.first = size := by
        cases hword : region.kind.isWord with
        | false => exact Region.span_of_not_isWord _ hword
        | true =>
          have hparity : size % 2 ≠ 1 := fun h => hodd ⟨hword, h⟩
          rw [Region.span_of_isWord _ hword]
          omega
      have hcount : count = size := (hwhole (hspan ▸ henough)).trans hspan
      rw [hcount]
      exact ⟨rfl, hbehind 1⟩
    · have hspan := Region.span_of_isWord region.first hodd.1
      have hcount : count = size + 1 := by
        have hspanned := hwhole (by omega)
        omega
      rw [hcount]
      exact ⟨rfl, hbehind 2⟩
    · have hspan := Region.span_of_isWord region.first hodd.1
      rcases hstop with hcount | ⟨hinside, hrest, hshort⟩
      · omega
      · -- an even number of bytes is wanted from there on, and less than two are left
        have heven := Region.span_of_isWord (region.first.advance count) hodd.1
        have htwo := Region.unitLength_of_isWord (region.first.advance count) hodd.1
        have hroom : 1 ≤ region.room (region.first.advance count) := Nat.le_add_left 1 _
        have hcount : count + 1 = size := by omega
        have hcut := ending_of_cut_word (bytes.drop count)
          (governs_of_only hregions _ hinside) hodd.1 (by rw [List.length_drop]; omega)
        refine ⟨hcount, ?_, ?_⟩
        · rw [show count = size - 1 by omega]
          exact Region.advance_room horder
        · rw [htrace]
          exact hcut

/-- A 6502 at the start of a region of three bytes that are to be shown as words. -/
def oddWords : Disassembler :=
  { ofProcessor Nmos6502.processor { start := 0x4000 } with
    regions := [⟨0x4000, 0x4002, .wordLittleEndian⟩] }

/-- The second word takes the byte behind the region, and an instruction follows at `$4004`. -/
theorem data_units_in_region_odd :
    let bytes : List UInt8 := [0x34, 0x12, 0x78, 0x56, 0x60]
    ∃ front, front.flatMap (·.bytes) = [0x34, 0x12, 0x78, 0x56] ∧
      oddWords.trace (.ofBytes bytes) =
        (oddWords.walk none 0x4004 (.ofBytes [0x60])).after front := by
  intro bytes
  obtain ⟨-, hpassage⟩ := data_units_in_region oddWords
  obtain ⟨front, count, -, hbytes, htrace, -, hodd, -⟩ :=
    hpassage ⟨0x4000, 0x4002, .wordLittleEndian⟩ bytes rfl (by decide) rfl (by decide)
  obtain ⟨hcount, hbehind⟩ := hodd ⟨rfl, by decide⟩ (by decide)
  rw [hcount] at hbytes
  rw [hbehind, hcount] at htrace
  exact ⟨front, hbytes, htrace⟩

/-- A word at the last address of its region takes a byte that is not of the region. -/
theorem word_leaves_region :
    ¬ ∀ (d : Disassembler) (source : Source) (stopAfter : Option Nat),
      ∀ unit ∈ (d.trace source stopAfter).emitted, ∀ region,
        d.regions.at? unit.address = some region →
        unit.bytes.length ≤ region.room unit.address := by
  intro hinside
  let d : Disassembler :=
    { ofProcessor Nmos6502.processor { start := 0x4000 } with
      regions := [⟨0x4000, 0x4000, .wordLittleEndian⟩] }
  have htrace : d.trace (.ofBytes [0x78, 0xEA]) =
      { units := [⟨0x4000, [0x78, 0xEA], .directive ".word" "$EA78"⟩]
        ending := .complete
        cursor := 0x4002 } := by decide +kernel
  have hemitted : ⟨0x4000, [0x78, 0xEA], .directive ".word" "$EA78"⟩ ∈
      (d.trace (.ofBytes [0x78, 0xEA])).emitted := by
    rw [htrace]
    exact List.mem_cons_self
  have hle := hinside d _ none _ hemitted ⟨0x4000, 0x4000, .wordLittleEndian⟩ rfl
  exact absurd hle (by decide)

end Disassembler

end Disassembly
