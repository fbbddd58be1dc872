import Disassembly.Proofs.Conservation

/-!
# Splitting an input

An input may come in two parts. A run over the first part leaves some bytes behind its complete
units, and the run over both parts is what it had read so far, with the run over these bytes and
the second part behind it, from the cursor where the first one ended:

* `walk_append`, of walks: a passage over the first part stands, whatever comes;
* `Trace.summary_after`, `listingLines_after`: units in front of a trace count as lines and stand
  in front of its listing, and change nothing else.

Nothing that the first run wrote behind its complete units, the label of its last cursor, part of a
string or a trailer, takes part in this: all of it belongs to the end of the data, which the run
over both parts has not met there.
-/

namespace Disassembly

/-! ## 1. More units in front -/

namespace Trace

/-- A trace with units in front. -/
def after (units : List Line) (trace : Trace) : Trace :=
  { trace with units := units ++ trace.units }

theorem emitted_after (units : List Line) (trace : Trace) :
    (trace.after units).emitted = units ++ trace.emitted :=
  List.append_assoc _ _ _

/-- Units in front count as lines, and change nothing else of what a trace sums up to. -/
theorem summary_after (units : List Line) (trace : Trace) :
    (trace.after units).summary =
      trace.summary.map fun summary => { summary with lines := units.length + summary.lines } := by
  unfold Trace.summary after
  cases trace.ending with
  | complete => simp [Except.map]
  | truncated part => simp [Except.map, Nat.add_assoc]
  | interrupted => simp [Except.map]
  | failed fault => rfl

end Trace

namespace Disassembler

/-- The disassembler of the same listing, from another address on. -/
def startingAt (d : Disassembler) (start : Address) : Disassembler := { d with start }

theorem listingLines_after (d : Disassembler) (units : List Line) (trace : Trace) :
    d.listingLines (trace.after units) = d.headerLines ++ units.flatMap d.unitLines ++
      (trace.units.flatMap d.unitLines ++ d.endingLines trace.cursor trace.ending) := by
  simp [listingLines, Trace.after, List.append_assoc]

/-! ## 2. Walks -/

/-- Disassemblers that read the same units walk the same way. -/
theorem walk_congr {d e : Disassembler}
    (h : ∀ cursor source, e.readAt cursor source = d.readAt cursor source)
    (stopAfter : Option Nat) (cursor : Address) (source : Source) :
    e.walk stopAfter cursor source = d.walk stopAfter cursor source := by
  induction hn : source.pending.length using Nat.strongRecOn generalizing cursor source with
  | _ n ih =>
    subst hn
    rw [walk_eq, walk_eq d, h]
    cases hread : d.readAt cursor source with
    | mk reading rest =>
      cases reading with
      | line line =>
        have hrest := ih _ (readAt_line_lt hread) (cursor.advance line.bytes.length) rest rfl
        dsimp only
        rw [hrest]
      | endOfData => rfl
      | truncated part => rfl
      | failed fault => rfl

/-- Where a listing begins is a matter of the cursor only. -/
theorem trace_startingAt (d : Disassembler) (start : Address) (source : Source) :
    (d.startingAt start).trace source = d.walk none start source := by
  have hread : ∀ cursor source,
      (d.startingAt start).readAt cursor source = d.readAt cursor source := fun _ _ => rfl
  exact walk_congr hread none start source

/-- **What has been passed stands**: whatever comes behind the bytes of a passage, the walk over all
    of it has the units of the passage first, and goes on from where the passage ends. -/
theorem walk_append {d : Disassembler} {cursor last : Address} {bytes rest : List UInt8}
    {units : List Line} (h : d.Passage cursor bytes units last rest) (more : List UInt8) :
    d.walk none cursor (.ofBytes (bytes ++ more)) =
      (d.walk none last (.ofBytes (rest ++ more))).after units := by
  obtain ⟨behind, hpassage, hends⟩ :=
    walk_eq_iff.mp (rfl : d.walk none last (.ofBytes (rest ++ more)) = _)
  rw [Source.ahead_ofBytes] at hpassage
  refine walk_eq_iff.mpr ⟨behind, ?_, ?_⟩
  · rw [Source.ahead_ofBytes]
    exact (h.append more).trans hpassage
  · rw [Source.faultAhead_ofBytes] at hends ⊢
    exact hends

/-! ## 3. Runs -/

/-- The units of the first part of an input are the first units of the input. -/
theorem units_trace_append (d : Disassembler) (first second : List UInt8) :
    (d.trace (.ofBytes first)).units <+: (d.trace (.ofBytes (first ++ second))).units := by
  obtain ⟨rest, hpassage, -⟩ := walk_eq_iff.mp (rfl : d.walk none d.start (.ofBytes first) = _)
  rw [Source.ahead_ofBytes] at hpassage
  unfold trace
  rw [walk_append hpassage second]
  exact List.prefix_append _ _

/-- **A run may be split and resumed.** Where the run over the first part of an input meets no
    fault, let `units` be its complete units and `rest` the bytes behind them. Then the run over
    all of the input finds `units` and what the run over `rest` and the second part finds from the
    last cursor of the first run on; it comes to the same result, but for `units` among the lines;
    and it writes its own header, `units`, and what the resumed run writes behind its header.
    The first units of the input are those of its first part in any case. -/
theorem run_resumes (d : Disassembler) (first second : List UInt8) :
    (d.trace (.ofBytes first)).units <+: (d.trace (.ofBytes (first ++ second))).units ∧
    ∀ summary, (d.run (.ofBytes first)).result = .ok summary →
      let units := (d.trace (.ofBytes first)).units
      let whole : Source := .ofBytes (first ++ second)
      let resumed := d.startingAt summary.finalAddress
      ∃ rest, first = units.flatMap (·.bytes) ++ rest ∧
        let remaining : Source := .ofBytes (rest ++ second)
        (d.trace whole).units = units ++ (resumed.trace remaining).units ∧
        (d.trace whole).emitted = units ++ (resumed.trace remaining).emitted ∧
        (d.run whole).result = (resumed.run remaining).result.map
          (fun summary => { summary with lines := units.length + summary.lines }) ∧
        ∃ behind,
          (resumed.run remaining).text = Text.ofLines resumed.headerLines ++ behind ∧
          (d.run whole).text =
            Text.ofLines d.headerLines ++ Text.ofLines (units.flatMap d.unitLines) ++ behind := by
  refine ⟨units_trace_append d first second, fun summary hrun => ?_⟩
  intro units whole resumed
  obtain ⟨rest, hpassage, -, -⟩ := passage_of_run hrun
  refine ⟨rest, hpassage.bytes_eq, ?_⟩
  intro remaining
  have htrace : d.trace whole = (resumed.trace remaining).after units := by
    rw [trace_startingAt]
    exact walk_append hpassage second
  refine ⟨?_, ?_, ?_, ?_⟩
  · rw [htrace]
    rfl
  · rw [htrace, Trace.emitted_after]
  · rw [result_run, result_run, htrace, Trace.summary_after]
  · let trace := resumed.trace remaining
    let behind := trace.units.flatMap d.unitLines ++ d.endingLines trace.cursor trace.ending
    refine ⟨Text.ofLines behind, ?_, ?_⟩
    · rw [text_run, ← Text.ofLines_append, ← List.append_assoc]
      rfl
    · rw [text_run, htrace, listingLines_after, Text.ofLines_append, Text.ofLines_append]

/-- The first part ends inside a string, which its run shows as far as it goes; the run over both
    parts has the instruction in front of it, and then the whole string. -/
theorem run_resumes_wrapped :
    let first : List UInt8 := [0xA9, 0x42, 0x48]
    let second : List UInt8 := [0x69, 0x21, 0x21, 0x21, 0x21, 0x21, 0x21]
    let summary : Summary := { outcome := .truncated, finalAddress := 0, lines := 2 }
    let lda : Line := ⟨0xFFFE, [0xA9, 0x42], .instruction "lda" "#$42"⟩
    let resumed := wrapped.startingAt 0
    (wrapped.run (.ofBytes first)).result = .ok summary ∧
    [lda] <+: (wrapped.trace (.ofBytes (first ++ second))).units ∧
    (wrapped.run (.ofBytes (first ++ second))).result =
      (resumed.run (.ofBytes (0x48 :: second))).result.map
        (fun summary => { summary with lines := 1 + summary.lines }) ∧
    ∃ behind,
      (resumed.run (.ofBytes (0x48 :: second))).text = Text.ofLines resumed.headerLines ++ behind ∧
      (wrapped.run (.ofBytes (first ++ second))).text =
        Text.ofLines wrapped.headerLines ++ Text.ofLines (wrapped.unitLines lda) ++ behind := by
  intro first second summary lda resumed
  have htrace : wrapped.trace (.ofBytes first) =
      { units := [lda]
        ending := .truncated (some (DataKind.string.line 0 [0x48]))
        cursor := 0 } := by decide +kernel
  have hrun : (wrapped.run (.ofBytes first)).result = .ok summary := by
    rw [result_run, htrace]
    rfl
  obtain ⟨hinitial, hresumes⟩ := run_resumes wrapped first second
  obtain ⟨rest, hrest, -, -, hresult, htext⟩ := hresumes summary hrun
  rw [htrace] at hinitial hrest hresult htext
  have hbytes : lda.bytes ++ [0x48] = lda.bytes ++ rest := hrest
  obtain rfl := List.append_cancel_left hbytes
  exact ⟨hrun, hinitial, hresult, htext⟩

end Disassembler

end Disassembly
