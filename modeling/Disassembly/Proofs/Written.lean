import Disassembly.Proofs.Passage
import Disassembly.Run

/-!
# What is written

A sink without a limit takes every line of a listing, so a run into it answers what its trace sums
up to, and has written the lines of its trace, each with its end (`run_eq`). The text that is shown
of what was written is then the text of those lines (`text_run`).
-/

namespace Disassembly

/-! ## 1. Lines as text -/

namespace Text

/-- The text of some lines, each with its end. -/
def ofLines : List String → String
  | [] => ""
  | line :: others => line ++ "\n" ++ ofLines others

theorem ofLines_append (lines others : List String) :
    ofLines (lines ++ others) = ofLines lines ++ ofLines others := by
  induction lines with
  | nil => rw [List.nil_append, ofLines, String.empty_append]
  | cons line lines ih =>
    rw [List.cons_append, ofLines, ih, ofLines]
    exact String.append_assoc.symm

theorem toUTF8_ofLines_cons (line : String) (lines : List String) :
    (ofLines (line :: lines)).toUTF8 = (line ++ "\n").toUTF8 ++ (ofLines lines).toUTF8 :=
  String.toByteArray_append

/-- The bytes of a text are read back as that text. -/
theorem fromUTF8?_toUTF8 (text : String) : String.fromUTF8? text.toUTF8 = some text := by
  unfold String.fromUTF8?
  rw [String.toUTF8_eq_toByteArray, dif_pos text.isValidUTF8]
  rfl

/-- Nothing is cut off a text that is whole. -/
theorem ofCutBytes_toUTF8 (text : String) : ofCutBytes text.toUTF8 = text := by
  rw [ofCutBytes, fromUTF8?_toUTF8]

end Text

/-! ## 2. A sink without a limit -/

namespace Sink

theorem write_of_unlimited {sink : Sink} (h : sink.room = none) (bytes : ByteArray) :
    sink.write bytes = { sink with held := sink.held ++ bytes } := by
  rw [write, h]
  rfl

/-- A sink without a limit holds behind a write what it held before, and all that was written. -/
theorem writeAll_of_unlimited {sink : Sink} (h : sink.room = none) (lines : List String) :
    sink.writeAll (lines.map (· ++ "\n")) =
      ({ sink with held := sink.held ++ (Text.ofLines lines).toUTF8 }, none) := by
  induction lines generalizing sink with
  | nil =>
    have hempty : sink.held ++ (Text.ofLines []).toUTF8 = sink.held := ByteArray.append_empty
    rw [hempty]
    rfl
  | cons line lines ih =>
    have hfits : sink.fits (line ++ "\n").toUTF8.size = true := by rw [fits, h]; rfl
    rw [List.map_cons, writeAll, if_pos hfits, write_of_unlimited h, Text.toUTF8_ofLines_cons,
      ← ByteArray.append_assoc]
    exact ih h

end Sink

/-! ## 3. Runs -/

namespace Disassembler

variable (d : Disassembler) (source : Source) (stopAfter : Option Nat)

/-- **A run into a sink without a limit is its trace**, summed up and written down. -/
theorem run_eq : d.run source stopAfter =
    { result := (d.trace source stopAfter).summary
      written := (Text.ofLines (d.listingLines (d.trace source stopAfter))).toUTF8 } := by
  have hwrite := Sink.writeAll_of_unlimited (rfl : ({} : Sink).room = none)
    (d.listingLines (d.trace source stopAfter))
  rw [run, writtenLines, hwrite]
  dsimp only
  rw [ByteArray.empty_append]

theorem result_run :
    (d.run source stopAfter).result = (d.trace source stopAfter).summary := by
  rw [run_eq]

theorem text_run :
    (d.run source stopAfter).text =
      Text.ofLines (d.listingLines (d.trace source stopAfter)) := by
  rw [run_eq, Report.text, Text.ofCutBytes_toUTF8]

end Disassembler

/-! ## 4. What a run sums up to -/

namespace Ending

/-- The outcome of a run that ended so; nothing, where a fault ended it. -/
def outcome? : Ending → Option Outcome
  | .complete => some .complete
  | .truncated _ => some .truncated
  | .interrupted => some .interrupted
  | .failed _ => none

/-- What is shown of a unit that the end of the data cut short. -/
def part : Ending → Option Line
  | .truncated part => part
  | _ => none

end Ending

namespace Trace

variable {trace : Trace} {summary : Summary} {fault : Fault}

/-- The units that are shown: the complete ones, and behind them what there is of a string that
    the data cut short. -/
def emitted (trace : Trace) : List Line := trace.units ++ trace.ending.part.toList

/-- Either only complete units are shown, or a string that was cut short stands behind them. -/
theorem emitted_cases (trace : Trace) :
    trace.emitted = trace.units ∨
      ∃ part, trace.ending = .truncated (some part) ∧ trace.emitted = trace.units ++ [part] := by
  unfold emitted
  cases trace.ending with
  | truncated shown =>
    cases shown with
    | none => exact Or.inl (List.append_nil _)
    | some part => exact Or.inr ⟨part, rfl, rfl⟩
  | complete => exact Or.inl (List.append_nil _)
  | interrupted => exact Or.inl (List.append_nil _)
  | failed fault => exact Or.inl (List.append_nil _)

/-- A trace sums up to its outcome, its cursor and the number of units that are shown, or to the
    fault that ended it. -/
theorem summary_cases (trace : Trace) :
    (∃ outcome, trace.ending.outcome? = some outcome ∧ trace.summary =
      .ok { outcome, finalAddress := trace.cursor, lines := trace.emitted.length }) ∨
    ∃ fault, trace.ending = .failed fault ∧ trace.summary = .error fault := by
  unfold Trace.summary emitted
  rw [List.length_append]
  cases trace.ending with
  | complete => exact Or.inl ⟨.complete, rfl, rfl⟩
  | truncated part => exact Or.inl ⟨.truncated, rfl, rfl⟩
  | interrupted => exact Or.inl ⟨.interrupted, rfl, rfl⟩
  | failed fault => exact Or.inr ⟨fault, rfl, rfl⟩

theorem summary_of_ok (h : trace.summary = .ok summary) :
    trace.ending.outcome? = some summary.outcome ∧ trace.cursor = summary.finalAddress ∧
      trace.emitted.length = summary.lines := by
  rcases trace.summary_cases with ⟨outcome, houtcome, hsummary⟩ | ⟨fault, -, hsummary⟩
  · rw [hsummary] at h
    cases h
    exact ⟨houtcome, rfl, rfl⟩
  · rw [hsummary] at h
    cases h

theorem ending_of_error (h : trace.summary = .error fault) : trace.ending = .failed fault := by
  rcases trace.summary_cases with ⟨outcome, -, hsummary⟩ | ⟨other, hended, hsummary⟩
  · rw [hsummary] at h
    cases h
  · rw [hsummary] at h
    cases h
    exact hended

end Trace

/-! ## 5. Runs over bytes that meet no fault -/

namespace Disassembler

variable {d : Disassembler} {summary : Summary}

/-- A run that does not say so was not interrupted. -/
theorem trace_of_not_interrupted {source : Source} {stopAfter : Option Nat}
    (h : (d.run source stopAfter).result = .ok summary) (hstop : summary.outcome ≠ .interrupted) :
    d.trace source stopAfter = d.trace source := by
  refine walk_of_not_interrupted d.start source fun hending => hstop ?_
  rw [result_run] at h
  have houtcome := (Trace.summary_of_ok h).1
  rw [trace, hending] at houtcome
  exact (Option.some.inj houtcome).symm

/-- A run that was not interrupted answers what it does without a stop. -/
theorem result_of_not_interrupted {source : Source} {stopAfter : Option Nat}
    (h : (d.run source stopAfter).result = .ok summary) (hstop : summary.outcome ≠ .interrupted) :
    (d.run source).result = .ok summary := by
  have htrace := trace_of_not_interrupted h hstop
  rw [result_run] at h ⊢
  rw [← htrace]
  exact h

/-- **A run over bytes that meets no fault** passes to a cursor in front of bytes that settle
    nothing, and there it ends with the data. -/
theorem passage_of_run {bytes : List UInt8}
    (h : (d.run (.ofBytes bytes)).result = .ok summary) :
    ∃ rest, d.Passage d.start bytes (d.trace (.ofBytes bytes)).units summary.finalAddress rest ∧
      d.scan? summary.finalAddress rest = none ∧
      (d.shortfall summary.finalAddress rest).ending? = some (d.trace (.ofBytes bytes)).ending := by
  rw [result_run] at h
  obtain ⟨houtcome, hcursor, -⟩ := Trace.summary_of_ok h
  obtain ⟨rest, hpassage, hends⟩ := walk_eq_iff.mp (rfl : d.walk none d.start (.ofBytes bytes) = _)
  rw [Source.ahead_ofBytes] at hpassage
  rw [Source.faultAhead_ofBytes] at hends
  rw [← hcursor]
  refine ⟨rest, hpassage, ?_⟩
  unfold trace at houtcome ⊢
  generalize (d.walk none d.start (.ofBytes bytes)).ending = ending at hends houtcome ⊢
  cases hends with
  | unknownMode hscan => cases houtcome
  | fault hscan hfault => cases hfault
  | data hscan hfault hending => exact ⟨hscan, hending⟩

end Disassembler

end Disassembly
