import Disassembly.Listing
import Disassembly.Sink
import Disassembly.Text.Utf8

/-!
# Running a disassembler

A run reads an input, writes its listing and sums up. What is read does not depend on what is
written, so the run is its trace, the lines of the trace, and their way into the sink. A sink that
is full ends a run as a fault, whatever the trace would have come to: the line that did not fit
stands before everything that was still to be noticed.
-/

namespace Disassembly

/-- How a run ended that met no fault. -/
inductive Outcome where
  /-- The input ended between two units, and the trailer was written. -/
  | complete
  /-- The input ended inside a unit. -/
  | truncated
  | interrupted
deriving DecidableEq, Repr

/-- What a run that met no fault sums up to. -/
structure Summary where
  outcome : Outcome
  /-- The cursor behind the last complete unit. -/
  finalAddress : Address
  /-- Units written, labels and framing lines not counted. -/
  lines : Nat
deriving DecidableEq, Repr

/-- What a run answers, and what it has written by then. -/
structure Report where
  result : Except Fault Summary
  written : ByteArray

namespace Report

/-- The text of what was written. -/
def text (report : Report) : String := Text.ofCutBytes report.written

end Report

namespace Trace

/-- What a trace sums up to. Part of a string that is shown counts as a line, not as a unit. -/
def summary (trace : Trace) : Except Fault Summary :=
  let lines := trace.units.length
  let sum outcome lines := .ok { outcome, finalAddress := trace.cursor, lines }
  match trace.ending with
  | .complete => sum .complete lines
  | .truncated part => sum .truncated (lines + part.toList.length)
  | .interrupted => sum .interrupted lines
  | .failed fault => .error fault

end Trace

namespace Disassembler

/-- The text of a listing's lines, as it is written: each line with its end. -/
def writtenLines (d : Disassembler) (trace : Trace) : List String :=
  (d.listingLines trace).map (· ++ "\n")

/-- Disassembles a source into a sink. With `stopAfter` the run is interrupted once that many
    bytes have been read. -/
def run (d : Disassembler) (source : Source) (stopAfter : Option Nat := none) (sink : Sink := {}) :
    Report :=
  let trace := d.trace source stopAfter
  match sink.writeAll (d.writtenLines trace) with
  | (sink, none) => { result := trace.summary, written := sink.held }
  | (sink, some refusal) => { result := .error (.io refusal), written := sink.held }

end Disassembler

end Disassembly
