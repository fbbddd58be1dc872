import Disassembly.Processor
import Disassembly.Region

/-!
# Runs over an input

A disassembler goes once over its input: where the cursor lies in a data region the region reads
the next unit, elsewhere the decoder does, and the cursor moves behind the bytes of the unit. This
file fixes what a run finds, without a word of how it is written down:

* `readAt`, one unit;
* `walk`, the units one after another up to the end, a fault, or an interrupt;
* `walk_eq`, by which a walk is its first unit and the walk from behind it.

An interrupt is noticed between units only, so a unit that has been begun is finished.
-/

namespace Disassembly

/-! ## 1. Disassemblers -/

/-- How a listing is to be made. -/
structure Options where
  /-- The address of the first byte. -/
  start : Address := 0
  /-- Whether addresses and bytes are shown. -/
  listing : Bool := true
  /-- Whether unofficial opcodes mean something. -/
  undocumented : Bool := false
  /-- Whether an opcode that means nothing is shown as such, and not as data. -/
  showInvalid : Bool := false
deriving DecidableEq, Repr

/-- A decoder that knows where data lies, where its input begins and how to show it. -/
structure Disassembler extends Decoder where
  regions : RegionTable := []
  start : Address := 0
  listing : Bool := true

/-- The disassembler of a processor, without labels and regions. -/
def Disassembler.ofProcessor (processor : Processor) (options : Options := {}) : Disassembler where
  instructions := processor.instructionSet
  undocumented := options.undocumented
  showInvalid := options.showInvalid
  start := options.start
  listing := options.listing

/-! ## 2. What a run finds -/

/-- How a run ended. -/
inductive Ending where
  /-- The data ended between two units. -/
  | complete
  /-- The data ended inside a unit, of which a string shows what there was. -/
  | truncated (part : Option Line)
  | interrupted
  | failed (fault : Fault)
deriving DecidableEq, Repr

/-- The complete units of a run, how it ended, and the cursor behind the last complete unit. -/
structure Trace where
  units : List Line
  ending : Ending
  cursor : Address
deriving DecidableEq, Repr

namespace Trace

/-- A trace with one unit more in front. -/
def cons (unit : Line) (trace : Trace) : Trace := { trace with units := unit :: trace.units }

/-- A trace with units in front, the latest of them given first. -/
def behind (units : List Line) (trace : Trace) : Trace :=
  { trace with units := units.reverse ++ trace.units }

@[simp] theorem behind_nil (trace : Trace) : trace.behind [] = trace := rfl

theorem behind_cons (unit : Line) (units : List Line) (trace : Trace) :
    trace.behind (unit :: units) = (trace.cons unit).behind units := by
  simp [behind, cons]

end Trace

namespace Disassembler

/-! ## 3. Walking -/

/-- Reads the unit at the cursor: data where the first region that contains the cursor says so,
    an instruction elsewhere. -/
def readAt (d : Disassembler) (cursor : Address) (source : Source) : Reading × Source :=
  match d.regions.at? cursor with
  | some region => region.readUnit cursor source
  | none => d.decode cursor source

/-- A unit that was read has used the source up by some. -/
theorem readAt_line_lt {d : Disassembler} {cursor : Address} {source rest : Source} {line : Line}
    (h : d.readAt cursor source = (.line line, rest)) :
    rest.pending.length < source.pending.length := by
  unfold readAt at h
  split at h
  · exact Region.readUnit_line_lt h
  · exact Decoder.decode_line_lt h

/-- Walks on behind units that have been read, the latest of them given first. With `stopAfter`
    the walk ends before the next unit once that many bytes have been read. -/
def walkOnto (d : Disassembler) (stopAfter : Option Nat) (units : List Line) (cursor : Address)
    (source : Source) : Trace :=
  if stopAfter.any (· ≤ source.consumed) then
    { units := units.reverse, ending := .interrupted, cursor }
  else
    match _h : d.readAt cursor source with
    | (.line line, rest) =>
      walkOnto d stopAfter (line :: units) (cursor.advance line.bytes.length) rest
    | (.endOfData, _) => { units := units.reverse, ending := .complete, cursor }
    | (.truncated part, _) => { units := units.reverse, ending := .truncated part, cursor }
    | (.failed fault, _) => { units := units.reverse, ending := .failed fault, cursor }
termination_by source.pending.length
decreasing_by exact readAt_line_lt _h

/-- The walk over a source from a cursor on. -/
def walk (d : Disassembler) (stopAfter : Option Nat) (cursor : Address) (source : Source) :
    Trace :=
  walkOnto d stopAfter [] cursor source

/-- What a run over a source finds. -/
def trace (d : Disassembler) (source : Source) (stopAfter : Option Nat := none) : Trace :=
  d.walk stopAfter d.start source

/-! ## 4. A walk is its first unit and the walk from behind it -/

/-- Units that have been read stand in front of what the walk finds, and change nothing of it. -/
theorem walkOnto_eq (d : Disassembler) (stopAfter : Option Nat) (units : List Line)
    (cursor : Address) (source : Source) :
    d.walkOnto stopAfter units cursor source = (d.walk stopAfter cursor source).behind units := by
  induction hn : source.pending.length using Nat.strongRecOn generalizing units cursor source with
  | _ n ih =>
    subst hn
    rw [walk, walkOnto, walkOnto]
    split
    · simp [Trace.behind]
    · split
      · rename_i line rest h
        have hlt := readAt_line_lt h
        rw [ih _ hlt _ _ _ rfl, ih _ hlt [line] _ _ rfl, Trace.behind_cons, Trace.behind_cons,
          Trace.behind_nil]
      all_goals simp [Trace.behind]

/-- Reads one unit, and walks on from behind it. -/
theorem walk_eq (d : Disassembler) (stopAfter : Option Nat) (cursor : Address) (source : Source) :
    d.walk stopAfter cursor source =
      if stopAfter.any (· ≤ source.consumed) then
        { units := [], ending := .interrupted, cursor }
      else
        match d.readAt cursor source with
        | (.line line, rest) =>
          (d.walk stopAfter (cursor.advance line.bytes.length) rest).cons line
        | (.endOfData, _) => { units := [], ending := .complete, cursor }
        | (.truncated part, _) => { units := [], ending := .truncated part, cursor }
        | (.failed fault, _) => { units := [], ending := .failed fault, cursor } := by
  rw [walk, walkOnto]
  split
  · rfl
  · split <;> rename_i h <;> simp [h, walkOnto_eq, Trace.behind_cons]

end Disassembler

end Disassembly
