import Disassembly.Proofs.Lockstep
import Disassembly.Proofs.RegionBounds
import Disassembly.Proofs.Units

/-!
# Where regions act

A run asks the region table at one cursor after another, and nowhere else. So a region that is put
into the table does something only where a cursor meets it: where it contains the cursor, and no
region declared before it does (`Region.MetBehind`). Up to the first such cursor the runs with and
without it are the same, and if there is none they are the same altogether, with the cursor at which
the run stops among them (`Disassembler.walk_sameUpTo`).

Whether a cursor meets a region depends on how the bytes before it fall into units, and a cursor may
come by a second time, round the address space; but nothing is asked of the region beyond the list
of cursors, so none of this matters.
-/

namespace Disassembly

/-! ## 1. Tables -/

/-- `region.MetBehind before cursor`: the region contains the cursor, and none of the regions
    `before` it does. -/
def Region.MetBehind (region : Region) (before : RegionTable) (cursor : Address) : Prop :=
  region.contains cursor = true ∧ ∀ earlier ∈ before, earlier.contains cursor = false

instance (region : Region) (before : RegionTable) (cursor : Address) :
    Decidable (region.MetBehind before cursor) := inferInstanceAs (Decidable (_ ∧ _))

namespace RegionTable

variable {table before : RegionTable} {region : Region} {cursor : Address}

/-- **The region that governs a cursor is the first one declared that contains it.** -/
theorem at?_eq_some_iff :
    table.at? cursor = some region ↔
      ∃ before after, table = before ++ region :: after ∧ region.MetBehind before cursor := by
  unfold at? Region.MetBehind
  rw [List.find?_eq_some_iff_append]
  constructor
  · rintro ⟨hcontains, before, after, htable, hbefore⟩
    refine ⟨before, after, htable, hcontains, fun earlier hearlier => ?_⟩
    exact Bool.not_eq_true' _ |>.mp (hbefore earlier hearlier)
  · rintro ⟨before, after, htable, hcontains, hbefore⟩
    refine ⟨hcontains, before, after, htable, fun earlier hearlier => ?_⟩
    rw [hbefore earlier hearlier]
    rfl

/-- A region that is not met may as well not be there. -/
theorem at?_of_not_met (after : RegionTable) (h : ¬ region.MetBehind before cursor) :
    at? (before ++ region :: after) cursor = at? (before ++ after) cursor := by
  unfold at?
  rw [List.find?_append, List.find?_append]
  cases hbefore : before.find? (·.contains cursor) with
  | some earlier => rfl
  | none =>
    have houtside : region.contains cursor = false := by
      refine Bool.eq_false_iff.mpr fun hcontains => h ⟨hcontains, fun earlier hearlier => ?_⟩
      exact Bool.eq_false_iff.mpr (List.find?_eq_none.mp hbefore earlier hearlier)
    rw [List.find?_cons, houtside]

end RegionTable

namespace Region

variable {region : Region} {before : RegionTable}

/-- A region whose ends are reversed is met nowhere. -/
theorem not_met_of_reversed (h : region.last < region.first) (cursor : Address) :
    ¬ region.MetBehind before cursor := by
  rintro ⟨hcontains, -⟩
  obtain ⟨hfirst, hlast⟩ := contains_iff.mp hcontains
  rw [UInt16.lt_iff_toNat_lt] at h
  omega

/-- A region that earlier ones cover is met nowhere. -/
theorem not_met_of_covered
    (h : ∀ address, region.contains address = true →
      ∃ earlier ∈ before, earlier.contains address = true) (cursor : Address) :
    ¬ region.MetBehind before cursor := by
  rintro ⟨hcontains, hbefore⟩
  obtain ⟨earlier, hearlier, hcovers⟩ := h cursor hcontains
  rw [hbefore earlier hearlier] at hcovers
  cases hcovers

end Region

/-! ## 2. Walks -/

namespace Trace

/-- The cursors at which the run looked for a unit, and the one at which it stopped. -/
def cursors (trace : Trace) : List Address := trace.units.map (·.address) ++ [trace.cursor]

theorem cursors_cons (unit : Line) (trace : Trace) :
    (trace.cons unit).cursors = unit.address :: trace.cursors := rfl

/-- `trace.SameUpTo k other`: the traces are the same up to cursor number `k`, and altogether if the
    first has no more than `k` cursors. -/
structure SameUpTo (trace : Trace) (k : Nat) (other : Trace) : Prop where
  cursors : other.cursors.take (k + 1) = trace.cursors.take (k + 1)
  units : other.units.take k = trace.units.take k
  whole : trace.cursors.length ≤ k → other = trace

theorem sameUpTo_refl (trace : Trace) (k : Nat) : trace.SameUpTo k trace where
  cursors := rfl
  units := rfl
  whole _ := rfl

theorem SameUpTo.cons {trace other : Trace} {k : Nat} (h : trace.SameUpTo k other) (unit : Line) :
    (trace.cons unit).SameUpTo (k + 1) (other.cons unit) where
  cursors := congrArg (unit.address :: ·) h.cursors
  units := congrArg (unit :: ·) h.units
  whole hlength := congrArg (Trace.cons unit) (h.whole (Nat.le_of_succ_le_succ hlength))

end Trace

namespace Disassembler

variable {d e : Disassembler} {stopAfter : Option Nat}

/-- The first cursor of a walk is where it begins. -/
theorem exists_cursors_walk (d : Disassembler) (stopAfter : Option Nat) (cursor : Address)
    (source : Source) :
    ∃ others, (d.walk stopAfter cursor source).cursors = cursor :: others := by
  apply walk_induction (motive := fun cursor trace => ∃ others, trace.cursors = cursor :: others)
  · exact fun cursor => ⟨[], rfl⟩
  · intro cursor source unit trace hread _
    rw [Trace.cursors_cons, address_of_readAt hread]
    exact ⟨_, rfl⟩
  · exact fun cursor source reading ending _ _ => ⟨[], rfl⟩

/-- **Two walks are the same as long as their readings are.** The induction is on the number of
    cursors; where a unit is read, both walks go on behind it with the same rest of the source. -/
theorem walk_sameUpTo {Shared : Address → Prop}
    (hread : ∀ cursor, Shared cursor → ∀ source, e.readAt cursor source = d.readAt cursor source)
    (k : Nat) (cursor : Address) (source : Source)
    (hshared : ∀ c ∈ (d.walk stopAfter cursor source).cursors.take k, Shared c) :
    (d.walk stopAfter cursor source).SameUpTo k (e.walk stopAfter cursor source) := by
  induction k generalizing cursor source with
  | zero =>
    obtain ⟨others, hothers⟩ := d.exists_cursors_walk stopAfter cursor source
    obtain ⟨others', hothers'⟩ := e.exists_cursors_walk stopAfter cursor source
    refine ⟨?_, rfl, fun hlength => ?_⟩
    · rw [hothers, hothers']
      rfl
    · rw [hothers] at hlength
      cases hlength
  | succ k ih =>
    obtain ⟨others, hothers⟩ := d.exists_cursors_walk stopAfter cursor source
    have hfirst : Shared cursor := by
      refine hshared cursor ?_
      rw [hothers]
      exact List.mem_cons_self
    rw [walk_eq] at hshared ⊢
    rw [walk_eq e, hread cursor hfirst]
    by_cases hstop : stopAfter.any (· ≤ source.consumed) = true
    · rw [if_pos hstop, if_pos hstop]
      exact Trace.sameUpTo_refl _ _
    · rw [if_neg hstop] at hshared
      rw [if_neg hstop, if_neg hstop]
      cases hreading : d.readAt cursor source with
      | mk reading rest =>
        rw [hreading] at hshared
        cases reading with
        | line unit => exact (ih _ rest fun c hc => hshared c (List.mem_cons_of_mem _ hc)).cons unit
        | endOfData => exact Trace.sameUpTo_refl _ _
        | truncated part => exact Trace.sameUpTo_refl _ _
        | failed fault => exact Trace.sameUpTo_refl _ _

/-- So they are the same if their readings are the same at all cursors of one of them. -/
theorem walk_eq_of_cursors {Shared : Address → Prop}
    (hread : ∀ cursor, Shared cursor → ∀ source, e.readAt cursor source = d.readAt cursor source)
    (cursor : Address) (source : Source)
    (hshared : ∀ c ∈ (d.walk stopAfter cursor source).cursors, Shared c) :
    e.walk stopAfter cursor source = d.walk stopAfter cursor source := by
  have hsame := walk_sameUpTo hread (d.walk stopAfter cursor source).cursors.length cursor source
    fun c hc => hshared c (List.mem_of_mem_take hc)
  exact hsame.whole (Nat.le_refl _)

/-- The listing of a run begins with the header and its first units, each under its label. -/
theorem exists_text_append (d : Disassembler) (source : Source) (stopAfter : Option Nat) (k : Nat) :
    ∃ behind, (d.run source stopAfter).text =
      Text.ofLines (d.headerLines ++ ((d.trace source stopAfter).units.take k).flatMap
        d.unitLines) ++ behind := by
  have hunits : (d.trace source stopAfter).units.flatMap d.unitLines =
      ((d.trace source stopAfter).units.take k).flatMap d.unitLines ++
        ((d.trace source stopAfter).units.drop k).flatMap d.unitLines := by
    rw [← List.flatMap_append, List.take_append_drop]
  rw [text_run, listingLines, hunits, ← List.append_assoc, List.append_assoc, Text.ofLines_append]
  exact ⟨_, rfl⟩

/-! ## 3. Runs -/

/-- Readings of a disassembler with another region in its table are the same where it is not
    met. -/
theorem readAt_of_not_met (d : Disassembler) {before : RegionTable} {region : Region}
    {cursor : Address} (after : RegionTable) (h : ¬ region.MetBehind before cursor)
    (source : Source) :
    ({ d with regions := before ++ region :: after } : Disassembler).readAt cursor source =
      ({ d with regions := before ++ after } : Disassembler).readAt cursor source := by
  unfold readAt
  dsimp only
  rw [RegionTable.at?_of_not_met after h]

/-- **Regions act only where a cursor meets them.** Let a table of regions be enlarged by one more,
    at whatever place. The runs under the two tables, over whatever source and however long they go
    on, stand at the same cursors up to the first one that meets the region, the cursor at which a
    run stops counted with the others, and their listings begin with the same units. If no cursor of
    one of the two runs meets it, they are the same, and so is what they write into any sink; so it
    is if the region's ends are reversed, if earlier regions cover it, and if a run stands at no
    cursor in it. And the region that governs a cursor is always the first one declared that
    contains it. -/
theorem regions_act_where_met (d : Disassembler) (before after : RegionTable) (region : Region) :
    let plain : Disassembler := { d with regions := before ++ after }
    let enlarged : Disassembler := { d with regions := before ++ region :: after }
    (∀ source stopAfter k,
      (∀ cursor ∈ (plain.trace source stopAfter).cursors.take k,
        ¬ region.MetBehind before cursor) →
      (enlarged.trace source stopAfter).cursors.take (k + 1) =
        (plain.trace source stopAfter).cursors.take (k + 1) ∧
      (enlarged.trace source stopAfter).units.take k =
        (plain.trace source stopAfter).units.take k ∧
      ∃ rest rest',
        let shared := Text.ofLines (plain.headerLines ++
          ((plain.trace source stopAfter).units.take k).flatMap plain.unitLines)
        (plain.run source stopAfter).text = shared ++ rest ∧
        (enlarged.run source stopAfter).text = shared ++ rest') ∧
    (∀ source stopAfter,
      (∀ cursor ∈ (plain.trace source stopAfter).cursors, ¬ region.MetBehind before cursor) ∨
      (∀ cursor ∈ (enlarged.trace source stopAfter).cursors, ¬ region.MetBehind before cursor) →
      enlarged.trace source stopAfter = plain.trace source stopAfter ∧
      ∀ sink, enlarged.run source stopAfter sink = plain.run source stopAfter sink) ∧
    (∀ source stopAfter sink,
      region.last < region.first ∨
      (∀ address, region.contains address = true →
        ∃ earlier ∈ before, earlier.contains address = true) ∨
      (∀ cursor ∈ (plain.trace source stopAfter).cursors, region.contains cursor = false) →
      enlarged.run source stopAfter sink = plain.run source stopAfter sink) ∧
    ∀ (table : RegionTable) cursor governing, table.at? cursor = some governing ↔
      ∃ earlier later, table = earlier ++ governing :: later ∧
        governing.MetBehind earlier cursor := by
  intro plain enlarged
  have hread : ∀ cursor, ¬ region.MetBehind before cursor → ∀ source,
      enlarged.readAt cursor source = plain.readAt cursor source :=
    fun cursor hmet source => readAt_of_not_met d after hmet source
  have hsame : ∀ source stopAfter,
      (∀ cursor ∈ (plain.trace source stopAfter).cursors, ¬ region.MetBehind before cursor) ∨
      (∀ cursor ∈ (enlarged.trace source stopAfter).cursors, ¬ region.MetBehind before cursor) →
      enlarged.trace source stopAfter = plain.trace source stopAfter := by
    rintro source stopAfter (hmet | hmet)
    · exact walk_eq_of_cursors hread d.start source hmet
    · exact (walk_eq_of_cursors (fun cursor hc source => (hread cursor hc source).symm) d.start
        source hmet).symm
  refine ⟨fun source stopAfter k hmet => ?_, fun source stopAfter hmet => ?_,
    fun source stopAfter sink hnowhere => ?_,
    fun table cursor governing => RegionTable.at?_eq_some_iff⟩
  · obtain ⟨hcursors, hunits, -⟩ := walk_sameUpTo hread k d.start source hmet
    obtain ⟨rest, hrest⟩ := plain.exists_text_append source stopAfter k
    obtain ⟨rest', hrest'⟩ := enlarged.exists_text_append source stopAfter k
    refine ⟨hcursors, hunits, rest, rest', hrest, hrest'.trans ?_⟩
    exact congrArg (fun units : List Line =>
      Text.ofLines (plain.headerLines ++ units.flatMap plain.unitLines) ++ rest') hunits
  · have htrace := hsame source stopAfter hmet
    exact ⟨htrace, fun sink => run_congr htrace rfl rfl rfl sink⟩
  · refine run_congr (hsame source stopAfter (Or.inl fun cursor hcursor => ?_)) rfl rfl rfl sink
    rcases hnowhere with hreversed | hcovered | houtside
    · exact Region.not_met_of_reversed hreversed cursor
    · exact Region.not_met_of_covered hcovered cursor
    · exact fun hmet => absurd hmet.1 (Bool.eq_false_iff.mp (houtside cursor hcursor))

/-- A region that lies inside an instruction over the end of the address space does nothing; one
    that the third cursor meets leaves the first two units as they are. -/
theorem regions_act_where_met_wrapped :
    let d : Disassembler := ofProcessor Nmos6502.processor { start := 0xFFFF }
    let source : Source := .ofBytes [0xA9, 0x42, 0xA2, 0x01, 0xEA]
    let inside : Disassembler := { d with regions := [⟨0x0000, 0x0000, .byte⟩] }
    let met : Disassembler := { d with regions := [⟨0x0002, 0x0009, .ascii⟩] }
    (d.trace source).cursors = [0xFFFF, 0x0001, 0x0003, 0x0004] ∧
    inside.run source = d.run source ∧
    (met.trace source).cursors.take 3 = [0xFFFF, 0x0001, 0x0003] ∧
    (met.trace source).units.take 2 = [⟨0xFFFF, [0xA9, 0x42], .instruction "lda" "#$42"⟩,
      ⟨0x0001, [0xA2, 0x01], .instruction "ldx" "#$01"⟩] := by
  intro d source inside met
  have htrace : d.trace source =
      { units := [⟨0xFFFF, [0xA9, 0x42], .instruction "lda" "#$42"⟩,
          ⟨0x0001, [0xA2, 0x01], .instruction "ldx" "#$01"⟩,
          ⟨0x0003, [0xEA], .instruction "nop" ""⟩]
        ending := .complete
        cursor := 0x0004 } := by decide +kernel
  have hplain : ({ d with regions := [] ++ [] } : Disassembler) = d := rfl
  have houtside : ∀ cursor ∈ (d.trace source).cursors,
      Region.contains ⟨0x0000, 0x0000, .byte⟩ cursor = false := by
    rw [htrace]
    intro cursor hcursor
    simp only [Trace.cursors, List.map_cons, List.map_nil, List.cons_append, List.nil_append,
      List.mem_cons, List.not_mem_nil, or_false] at hcursor
    rcases hcursor with rfl | rfl | rfl | rfl <;> rfl
  have hbefore : ∀ cursor ∈ (d.trace source).cursors.take 2,
      ¬ Region.MetBehind ⟨0x0002, 0x0009, .ascii⟩ [] cursor := by
    rw [htrace]
    intro cursor hcursor
    simp only [Trace.cursors, List.map_cons, List.cons_append, List.take_succ_cons, List.take_zero,
      List.mem_cons, List.not_mem_nil, or_false] at hcursor
    rcases hcursor with rfl | rfl <;> decide
  obtain ⟨-, -, hnowhere, -⟩ := regions_act_where_met d [] [] ⟨0x0000, 0x0000, .byte⟩
  obtain ⟨hupTo, -⟩ := regions_act_where_met d [] [] ⟨0x0002, 0x0009, .ascii⟩
  rw [hplain] at hnowhere hupTo
  have hinside := hnowhere source none {} (Or.inr (Or.inr houtside))
  obtain ⟨hcursors, hunits, -⟩ := hupTo source none 2 hbefore
  rw [htrace] at hcursors hunits
  exact ⟨congrArg Trace.cursors htrace, hinside, hcursors, hunits⟩

end Disassembler

end Disassembly
