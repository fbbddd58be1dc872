import Disassembly.Proofs.Conservation

/-!
# What an outcome means

A run over bytes that meets no fault and is not interrupted ends in one of three ways, and which
one it is can be told from the bytes behind its complete units and the cursor there: there are none
and no region wants any, and then the listing gets its trailer; there are some of a string, and
these are shown; or what there is does not make a unit, and nothing is shown of it. The lines
behind the label of the last cursor say which (`tailLines`).
-/

namespace Disassembly.Disassembler

variable {d : Disassembler} {cursor : Address} {rest : List UInt8} {ending : Ending}

/-! ## 1. The lines behind the last label -/

/-- The lines behind the label of the last cursor. -/
def tailLines (d : Disassembler) (cursor : Address) : Ending → List String
  | .complete => ["", d.layout.trailer cursor]
  | .truncated part => part.toList.map d.layout.line
  | .failed _ | .interrupted => []

/-- A run that was not interrupted has looked for a label at its last cursor. -/
theorem endingLines_eq (h : ending ≠ .interrupted) :
    d.endingLines cursor ending = d.labelLines cursor ++ d.tailLines cursor ending := by
  cases ending with
  | complete => rfl
  | truncated part => rfl
  | failed fault => exact (List.append_nil _).symm
  | interrupted => exact absurd rfl h

theorem listingLines_of_not_interrupted {trace : Trace} (h : trace.ending ≠ .interrupted) :
    d.listingLines trace = d.headerLines ++ trace.units.flatMap d.unitLines ++
      d.labelLines trace.cursor ++ d.tailLines trace.cursor trace.ending := by
  rw [listingLines, endingLines_eq h, List.append_assoc _ (d.labelLines _)]

/-! ## 2. Data that ends inside a unit -/

theorem at?_eq_none_iff :
    d.regions.at? cursor = none ↔ ∀ region ∈ d.regions, region.contains cursor = false := by
  unfold RegionTable.at?
  rw [List.find?_eq_none]
  constructor
  · intro h region hregion
    exact Bool.eq_false_iff.mpr (h region hregion)
  · intro h region hregion
    exact Bool.eq_false_iff.mp (h region hregion)

theorem exists_region_of_at?_ne_none (h : d.regions.at? cursor ≠ none) :
    ∃ region ∈ d.regions, region.contains cursor = true := by
  obtain ⟨region, hregion⟩ := Option.ne_none_iff_exists'.mp h
  have hcontains := List.find?_some (show d.regions.find? (·.contains cursor) = _ from hregion)
  exact ⟨region, List.mem_of_find?_eq_some hregion, hcontains⟩

/-- Where bytes settle nothing and the data does not end between two units, reading a unit of them
    reads them all and finds that they do not suffice. -/
theorem readAt_of_truncated (hscan : d.scan? cursor rest = none)
    (hending : (d.shortfall cursor rest).ending? = some ending) (hne : ending ≠ .complete) :
    ∃ part, d.readAt cursor (.ofBytes rest) =
      (.truncated part, { pending := [], consumed := rest.length }) := by
  have hnone : d.scan? cursor (Source.ofBytes rest).ahead = none := by
    rw [Source.ahead_ofBytes]
    exact hscan
  have hread := (readAt_of_none hnone).ended (Source.faultAhead_ofBytes rest)
  have hspent : (Source.ofBytes rest).spent = { pending := [], consumed := rest.length } := by
    rw [Source.spent, Source.ahead_ofBytes]
    exact congrArg _ (Nat.zero_add _)
  rw [Source.ahead_ofBytes, hspent] at hread
  rcases d.shortfall_cases cursor rest with hshort | ⟨part, hshort⟩
  · rw [hshort] at hending
    cases hending
    exact absurd rfl hne
  · exact ⟨part, hshort ▸ hread⟩

/-! ## 3. Runs -/

/-- **What the outcome of a run means**, in terms of the bytes `rest` that its complete units leave
    and of its last cursor. It is complete where none are left and no region contains the cursor,
    and only then there is a trailer. Otherwise the data ended inside a unit, which reads all of
    `rest` and does not get enough; if this is a string of at least one byte, what there is of it is
    shown, and else nothing is. -/
theorem run_outcome (d : Disassembler) (bytes : List UInt8) (stopAfter : Option Nat)
    (summary : Summary) (hrun : (d.run (.ofBytes bytes) stopAfter).result = .ok summary)
    (hstop : summary.outcome ≠ .interrupted) :
    let units := (d.trace (.ofBytes bytes) stopAfter).units
    let cursor := summary.finalAddress
    ∃ rest tail,
      bytes = units.flatMap (·.bytes) ++ rest ∧
      (d.run (.ofBytes bytes) stopAfter).text =
        Text.ofLines (d.headerLines ++ units.flatMap d.unitLines ++ d.labelLines cursor ++ tail) ∧
      (summary.outcome = .complete ↔
        rest = [] ∧ ∀ region ∈ d.regions, region.contains cursor = false) ∧
      (summary.outcome ≠ .complete → summary.outcome = .truncated ∧
        (∃ part, d.readAt cursor (.ofBytes rest) =
          (.truncated part, { pending := [], consumed := rest.length })) ∧
        (rest = [] → ∃ region ∈ d.regions, region.contains cursor = true)) ∧
      (summary.outcome = .complete ↔ tail = ["", d.layout.trailer cursor]) ∧
      (d.CutsString cursor rest ↔ ∃ part : Line, part.address = cursor ∧ part.bytes = rest ∧
        part = DataKind.string.line cursor rest ∧ tail = [d.layout.line part]) ∧
      (summary.outcome = .truncated → ¬ d.CutsString cursor rest → tail = []) := by
  intro units cursor
  have htrace := trace_of_not_interrupted hrun hstop
  obtain ⟨rest, hpassage, hscan, hending⟩ :=
    passage_of_run (result_of_not_interrupted hrun hstop)
  rw [← htrace] at hpassage hending
  rw [result_run] at hrun
  obtain ⟨houtcome, hcursor, -⟩ := Trace.summary_of_ok hrun
  have hshown : (d.trace (.ofBytes bytes) stopAfter).ending ≠ .interrupted := by
    intro hinterrupted
    rw [hinterrupted] at houtcome
    exact hstop (Option.some.inj houtcome).symm
  refine ⟨rest, d.tailLines cursor (d.trace (.ofBytes bytes) stopAfter).ending, hpassage.bytes_eq,
    ?_, ?_⟩
  · rw [text_run, listingLines_of_not_interrupted hshown, hcursor]
  -- the outcome and the lines shown are both a matter of the ending
  have hread := readAt_of_truncated hscan hending
  generalize (d.trace (.ofBytes bytes) stopAfter).ending = ending at hending houtcome hread ⊢
  rw [← at?_eq_none_iff]
  rcases ending_of_shortfall hending with ⟨rfl, hrest, hregion⟩ | ⟨rfl, hcut⟩ | ⟨rfl, hcut, hend⟩
  · have hcomplete : summary.outcome = .complete := (Option.some.inj houtcome).symm
    rw [hcomplete]
    refine ⟨?_, fun h => absurd rfl h, ?_, ?_, fun h => by cases h⟩
    · exact iff_of_true rfl ⟨hrest, hregion⟩
    · exact iff_of_true rfl rfl
    · refine iff_of_false (fun hcut => hcut.1 hrest) ?_
      rintro ⟨part, -, -, -, htail⟩
      exact absurd (congrArg List.length htail) (by simp [tailLines])
  · have htruncated : summary.outcome = .truncated := (Option.some.inj houtcome).symm
    rw [htruncated]
    refine ⟨?_, fun _ => ⟨rfl, hread nofun, fun h => absurd h hcut.1⟩, ?_, ?_, ?_⟩
    · exact iff_of_false nofun fun h => hcut.1 h.1
    · exact iff_of_false nofun fun htail =>
        absurd (congrArg List.length htail) (by simp [tailLines])
    · exact iff_of_true hcut ⟨_, rfl, rfl, rfl, rfl⟩
    · exact fun _ h => absurd hcut h
  · have htruncated : summary.outcome = .truncated := (Option.some.inj houtcome).symm
    rw [htruncated]
    refine ⟨?_, fun _ => ⟨rfl, hread nofun, fun hrest => ?_⟩, ?_, ?_, fun _ _ => rfl⟩
    · exact iff_of_false nofun hend
    · exact exists_region_of_at?_ne_none fun hregion => hend ⟨hrest, hregion⟩
    · exact iff_of_false nofun fun htail => by cases htail
    · refine iff_of_false hcut ?_
      rintro ⟨part, -, -, -, htail⟩
      cases htail

/-- The data ends behind an instruction, but where the cursor is then a region of strings begins:
    nothing is left, and still the run is not complete. -/
theorem run_outcome_wrapped :
    let bytes : List UInt8 := [0xA9, 0x42]
    let summary : Summary := { outcome := .truncated, finalAddress := 0, lines := 1 }
    (wrapped.run (.ofBytes bytes)).result = .ok summary ∧ summary.outcome ≠ .interrupted ∧
    (∃ region ∈ wrapped.regions, region.contains 0 = true) ∧
    (wrapped.run (.ofBytes bytes)).text = Text.ofLines (wrapped.headerLines ++
      wrapped.unitLines ⟨0xFFFE, [0xA9, 0x42], .instruction "lda" "#$42"⟩ ++
      wrapped.labelLines 0) := by
  intro bytes summary
  have htrace : wrapped.trace (.ofBytes bytes) =
      { units := [⟨0xFFFE, [0xA9, 0x42], .instruction "lda" "#$42"⟩]
        ending := .truncated none
        cursor := 0 } := by decide +kernel
  have hrun : (wrapped.run (.ofBytes bytes)).result = .ok summary := by
    rw [result_run, htrace]
    rfl
  have hstop : summary.outcome ≠ .interrupted := by decide
  obtain ⟨rest, tail, hbytes, htext, -, htruncated, -, -, hnothing⟩ :=
    run_outcome wrapped bytes none summary hrun hstop
  obtain ⟨-, -, hregion⟩ := htruncated (by decide)
  rw [htrace] at hbytes htext
  have hrest : rest = [] := (List.self_eq_append_right.mp hbytes)
  rw [hnothing rfl fun hcut => hcut.1 hrest, List.flatMap_singleton, List.append_nil] at htext
  exact ⟨hrun, hstop, hregion hrest, htext⟩

end Disassembly.Disassembler
