import Disassembly.Proofs.Outcome

/-!
# Faults of the device

A run learns of its source what lies ahead in it and nothing else (`trace_eq_of_ahead`): retries do
not show, and neither does what stands behind the first fault. The fault itself ends the run where
the end of the data would have, in place of it (`trace_of_fault`), unless an opcode with an unknown
mode came first. So the run over a faulty source is told from the one over the bytes before the
fault (`run_of_fault`): the same units, and behind the label of the last cursor nothing more.
-/

namespace Disassembly

namespace Source

/-! ## 1. Retries -/

theorem aheadOf_filter_retry (events : List ReadEvent) :
    aheadOf (events.filter (· ≠ .retry)) = aheadOf events := by
  induction events with
  | nil => rfl
  | cons event events ih =>
    cases event with
    | byte value => exact congrArg (value :: ·) ih
    | retry => exact ih
    | fault detail => rfl

theorem faultOf_filter_retry (events : List ReadEvent) :
    faultOf (events.filter (· ≠ .retry)) = faultOf events := by
  induction events with
  | nil => rfl
  | cons event events ih =>
    cases event with
    | byte value => exact ih
    | retry => exact ih
    | fault detail => rfl

/-- The source without its retries. -/
def withoutRetries (source : Source) : Source :=
  { source with pending := source.pending.filter (· ≠ .retry) }

end Source

namespace Disassembler

variable {d : Disassembler} {source other : Source}

/-! ## 2. Traces -/

/-- **What lies ahead in a source is all that a run learns of it.** -/
theorem trace_eq_of_ahead (hahead : other.ahead = source.ahead)
    (hfault : other.faultAhead = source.faultAhead) : d.trace other = d.trace source := by
  obtain ⟨rest, hpassage, hends⟩ := walk_eq_iff.mp (rfl : d.walk none d.start source = _)
  rw [← hahead] at hpassage
  rw [← hfault] at hends
  exact walk_eq_iff.mpr ⟨rest, hpassage, hends⟩

/-- **A fault ends a run where the end of the data would have**, unless the run did not come that
    far. -/
theorem trace_of_fault {detail : String} {clean : Trace} (hfault : source.faultAhead = some detail)
    (hclean : d.trace (.ofBytes source.ahead) = clean) :
    (d.trace source = { clean with ending := .failed (.io detail) } ∧
      clean.ending ≠ .interrupted ∧ ∀ fault, clean.ending ≠ .failed fault) ∨
    (d.trace source = clean ∧
      ∃ mode opcode, clean.ending = .failed (.unknownMode mode opcode)) := by
  obtain ⟨rest, hpassage, hends⟩ := walk_eq_iff.mp hclean
  rw [Source.ahead_ofBytes] at hpassage
  rw [Source.faultAhead_ofBytes] at hends
  obtain ⟨units, ending, cursor⟩ := clean
  dsimp only at hpassage hends ⊢
  cases hends with
  | unknownMode hscan =>
    exact Or.inr ⟨walk_eq_iff.mpr ⟨rest, hpassage, .unknownMode hscan⟩, _, _, rfl⟩
  | fault hscan hnone => cases hnone
  | data hscan hnone hending =>
    refine Or.inl ⟨walk_eq_iff.mpr ⟨rest, hpassage, .fault hscan hfault⟩, ?_⟩
    rcases ending_of_shortfall hending with ⟨rfl, -⟩ | ⟨rfl, -⟩ | ⟨rfl, -⟩
    · exact ⟨nofun, nofun⟩
    · exact ⟨nofun, nofun⟩
    · exact ⟨nofun, nofun⟩

/-! ## 3. Runs -/

theorem run_eq_of_trace_eq (h : d.trace other = d.trace source) (sink : Sink) :
    d.run other none sink = d.run source none sink := by
  unfold run
  rw [h]

section Fault

variable {detail : String} (hfault : source.faultAhead = some detail)
include hfault

/-- Where the run over the bytes before a fault meets none, the fault cuts its listing behind the
    label of the last cursor. -/
theorem run_of_fault {summary : Summary}
    (hrun : (d.run (.ofBytes source.ahead)).result = .ok summary) :
    let clean := d.trace (.ofBytes source.ahead)
    let kept := d.headerLines ++ clean.units.flatMap d.unitLines ++
      d.labelLines summary.finalAddress
    (d.run source).result = .error (.io detail) ∧
    (d.run source).text = Text.ofLines kept ∧
    (d.run (.ofBytes source.ahead)).text =
      Text.ofLines kept ++ Text.ofLines (d.tailLines summary.finalAddress clean.ending) := by
  intro clean kept
  rw [result_run] at hrun
  obtain ⟨houtcome, hcursor, -⟩ := Trace.summary_of_ok hrun
  rcases trace_of_fault hfault rfl with ⟨htrace, hshown, -⟩ | ⟨-, mode, opcode, hmode⟩
  · refine ⟨?_, ?_, ?_⟩
    · rw [result_run, htrace]
      rfl
    · rw [text_run, htrace, listingLines]
      dsimp only [endingLines]
      rw [hcursor]
    · rw [text_run, listingLines_of_not_interrupted hshown, Text.ofLines_append, hcursor]
  · rw [hmode] at houtcome
    cases houtcome

/-- Where the run over the bytes before a fault meets one of its own, it has not come to the fault
    behind them. -/
theorem run_of_fault_of_error {fault : Fault}
    (hrun : (d.run (.ofBytes source.ahead)).result = .error fault) :
    (∃ mode opcode, fault = .unknownMode mode opcode) ∧
    d.run source = d.run (.ofBytes source.ahead) := by
  rw [result_run] at hrun
  have hended := Trace.ending_of_error hrun
  rcases trace_of_fault hfault rfl with ⟨-, -, hdata⟩ | ⟨htrace, mode, opcode, hmode⟩
  · exact absurd hended (hdata fault)
  · have heq := Ending.failed.inj (hended.symm.trans hmode)
    exact ⟨⟨mode, opcode, heq⟩, run_eq_of_trace_eq htrace {}⟩

end Fault

/-- **A run depends on the bytes ahead and on what comes behind them**, a fault or the end of the
    data; retries change nothing. If a fault comes and the run over the bytes alone meets none, then
    the run answers that fault, and has written what the other run had up to the label of its last
    cursor: neither part of a string nor a trailer. If the run over the bytes alone meets a fault,
    which is then an unknown mode, both runs are the same. -/
theorem run_of_reads (d : Disassembler) (source : Source) :
    (∀ other : Source, other.ahead = source.ahead → other.faultAhead = source.faultAhead →
      ∀ sink, d.run other none sink = d.run source none sink) ∧
    (∀ sink, d.run source.withoutRetries none sink = d.run source none sink) ∧
    (source.faultAhead = none →
      ∀ sink, d.run source none sink = d.run (.ofBytes source.ahead) none sink) ∧
    ∀ detail, source.faultAhead = some detail →
      let clean := d.trace (.ofBytes source.ahead)
      (∀ summary, (d.run (.ofBytes source.ahead)).result = .ok summary →
        (d.run source).result = .error (.io detail) ∧
        (d.run source).text = Text.ofLines (d.headerLines ++ clean.units.flatMap d.unitLines ++
          d.labelLines summary.finalAddress) ∧
        (d.run (.ofBytes source.ahead)).text =
          (d.run source).text ++ Text.ofLines (d.tailLines summary.finalAddress clean.ending)) ∧
      (∀ fault, (d.run (.ofBytes source.ahead)).result = .error fault →
        (∃ mode opcode, fault = .unknownMode mode opcode) ∧
        d.run source = d.run (.ofBytes source.ahead)) := by
  have hview : ∀ other : Source, other.ahead = source.ahead →
      other.faultAhead = source.faultAhead →
      ∀ sink, d.run other none sink = d.run source none sink :=
    fun other hahead hfault sink => run_eq_of_trace_eq (trace_eq_of_ahead hahead hfault) sink
  refine ⟨hview, ?_, fun hfault sink => ?_, fun detail hfault => ⟨fun summary hrun => ?_, ?_⟩⟩
  · exact hview _ (Source.aheadOf_filter_retry _) (Source.faultOf_filter_retry _)
  · exact (hview _ (Source.ahead_ofBytes _) ((Source.faultAhead_ofBytes _).trans hfault.symm)
      sink).symm
  · obtain ⟨hresult, htext, hclean⟩ := run_of_fault hfault hrun
    exact ⟨hresult, htext, hclean.trans (congrArg (· ++ _) htext.symm)⟩
  · exact fun fault hrun => run_of_fault_of_error hfault hrun

/-- A retry inside an instruction, and a fault inside a string: the run over the bytes before it
    would show what there is of the string, this one does not. -/
theorem run_of_reads_wrapped :
    let source : Source :=
      { pending := [.byte 0xA9, .retry, .byte 0x42, .byte 0x48, .fault "no medium", .byte 0x69] }
    let summary : Summary := { outcome := .truncated, finalAddress := 0, lines := 2 }
    let lda : Line := ⟨0xFFFE, [0xA9, 0x42], .instruction "lda" "#$42"⟩
    source.faultAhead = some "no medium" ∧
    (wrapped.run (.ofBytes source.ahead)).result = .ok summary ∧
    (wrapped.run source).result = .error (.io "no medium") ∧
    (wrapped.run source).text =
      Text.ofLines (wrapped.headerLines ++ wrapped.unitLines lda ++ wrapped.labelLines 0) := by
  intro source summary lda
  have htrace : wrapped.trace (.ofBytes source.ahead) =
      { units := [lda]
        ending := .truncated (some (DataKind.string.line 0 [0x48]))
        cursor := 0 } := by decide +kernel
  have hrun : (wrapped.run (.ofBytes source.ahead)).result = .ok summary := by
    rw [result_run, htrace]
    rfl
  have hfault : source.faultAhead = some "no medium" := rfl
  obtain ⟨-, -, -, hfaulted⟩ := run_of_reads wrapped source
  obtain ⟨hresult, htext, -⟩ := (hfaulted "no medium" hfault).1 summary hrun
  rw [htrace, List.flatMap_singleton] at htext
  exact ⟨hfault, hrun, hresult, htext⟩

end Disassembler

end Disassembly
