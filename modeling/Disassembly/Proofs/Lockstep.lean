import Mathlib.Data.List.Forall2
import Disassembly.Proofs.Written

/-!
# Two walks in lockstep

Two disassemblers read one source, each from a cursor of its own, and every unit of the one has its
counterpart in the other. Which units are counterparts is left open (`Similar`), and so is how the
cursors lie (`Beside`), so that one argument serves runs that differ in their table, in their start
or in how they are shown. This file says

* `InStep`: the answers of two readings that keep two walks in step. The first may be excused, if
  its unit is one that the comparison is not about;
* `Decoder.Follows`: what two decoders must have in common, by which all that they decode is in
  step (`Decoder.Follows.decode`): the opcodes that mean something, with their formats, and the
  lines that come of them;
* `walk_alongside`: two walks are in step if every two readings are, unless a unit of the first is
  excused; `walk_alongside_of_eq` is the case of one cursor for both. Where the units are the same,
  so are the runs (`run_congr`).
-/

namespace Disassembly

/-! ## 1. Answers -/

/-- `InStep Excused Similar answer other`: the two answers of reading a unit leave the same of the
    source and are similar units, or both the same and no unit; or the first is an excused unit. -/
inductive InStep (Excused : Line → Prop) (Similar : Line → Line → Prop) :
    Reading × Source → Reading × Source → Prop where
  | unit {unit other : Line} {rest : Source} (hsimilar : Similar unit other) :
      InStep Excused Similar (.line unit, rest) (.line other, rest)
  | ending {reading : Reading} {ending : Ending} {rest : Source}
      (hending : reading.ending? = some ending) :
      InStep Excused Similar (reading, rest) (reading, rest)
  | excused {unit : Line} {rest : Source} {other : Reading × Source} (hexcused : Excused unit) :
      InStep Excused Similar (.line unit, rest) other

variable {Excused : Line → Prop} {Similar : Line → Line → Prop}

/-! ## 2. Instructions -/

namespace Decoder

/-- `decoder.Follows Excused Similar address other address'`: what `other` decodes at `address'` is
    in step with what `decoder` decodes at `address`. Opcodes that mean something mean the same in
    both; those that mean nothing in the first alone make excused units. -/
structure Follows (Excused : Line → Prop) (Similar : Line → Line → Prop) (decoder : Decoder)
    (address : Address) (other : Decoder) (address' : Address) : Prop where
  leadIns : other.instructions.leadIns = decoder.instructions.leadIns
  visible : ∀ key descriptor, decoder.visible? key = some descriptor →
    other.visible? key = some descriptor ∧ other.format? descriptor = decoder.format? descriptor
  hidden : ∀ key, decoder.visible? key = none →
    other.visible? key = none ∨ ∀ bytes, Excused (decoder.invalid address bytes)
  invalid : ∀ bytes, Similar (decoder.invalid address bytes) (other.invalid address' bytes) ∨
    Excused (decoder.invalid address bytes)
  instruction : ∀ key descriptor format bytes operands,
    decoder.visible? key = some descriptor → decoder.format? descriptor = some format →
    Similar (decoder.instruction address bytes descriptor format operands)
      (other.instruction address' bytes descriptor format operands)

variable {decoder other : Decoder} {address address' : Address} {opcode operands : List UInt8}
  {descriptor : Descriptor} {format : OperandFormat}

/-- What an instruction looks like does not depend on the table it was found in. -/
theorem instruction_congr (hlabels : other.labels = decoder.labels)
    (hshown : other.showInvalid = decoder.showInvalid) (bytes operands : List UInt8) :
    other.instruction address bytes descriptor format operands =
      decoder.instruction address bytes descriptor format operands := by
  unfold instruction unit
  rw [hlabels, hshown]

namespace Follows

theorem invalid_inStep (h : decoder.Follows Excused Similar address other address')
    (bytes : List UInt8) (rest : Source) :
    InStep Excused Similar (.line (decoder.invalid address bytes), rest)
      (.line (other.invalid address' bytes), rest) := by
  rcases h.invalid bytes with hsimilar | hexcused
  · exact .unit hsimilar
  · exact .excused hexcused

theorem completeExtended (h : decoder.Follows Excused Similar address other address')
    (opcode operands : List UInt8) (rest : Source) :
    InStep Excused Similar (decoder.completeExtended address opcode operands, rest)
      (other.completeExtended address' opcode operands, rest) := by
  unfold Decoder.completeExtended
  cases operands.getLast? with
  | none => exact h.invalid_inStep _ rest
  | some last =>
    dsimp only
    cases hvisible : decoder.visible? (Opcode.ofBytes (opcode ++ [last])) with
    | none =>
      rcases h.hidden _ hvisible with hnone | hexcused
      · rw [hnone]
        exact h.invalid_inStep _ rest
      · exact .excused (hexcused _)
    | some descriptor =>
      obtain ⟨hother, hsame⟩ := h.visible _ descriptor hvisible
      rw [hother]
      dsimp only
      rw [hsame]
      cases hformat : decoder.format? descriptor with
      | none => exact .ending rfl
      | some format => exact .unit (h.instruction _ descriptor format _ _ hvisible hformat)

theorem complete (h : decoder.Follows Excused Similar address other address') {key : Nat}
    (hvisible : decoder.visible? key = some descriptor)
    (hformat : decoder.format? descriptor = some format) (opcode operands : List UInt8)
    (rest : Source) :
    InStep Excused Similar (decoder.complete address opcode operands descriptor format, rest)
      (other.complete address' opcode operands descriptor format, rest) := by
  unfold Decoder.complete
  by_cases hextended : descriptor.flags.extended = true
  · rw [if_pos hextended, if_pos hextended]
    exact h.completeExtended opcode operands rest
  · rw [if_neg hextended, if_neg hextended]
    exact .unit (h.instruction key descriptor format _ _ hvisible hformat)

theorem decodeFrom (h : decoder.Follows Excused Similar address other address')
    (opcode : List UInt8) (source : Source) :
    InStep Excused Similar (decoder.decodeFrom address opcode source)
      (other.decodeFrom address' opcode source) := by
  unfold Decoder.decodeFrom
  dsimp only
  cases hvisible : decoder.visible? (Opcode.ofBytes opcode) with
  | none =>
    rcases h.hidden _ hvisible with hnone | hexcused
    · rw [hnone]
      exact h.invalid_inStep _ source
    · exact .excused (hexcused _)
  | some descriptor =>
    obtain ⟨hother, hsame⟩ := h.visible _ descriptor hvisible
    rw [hother]
    dsimp only
    rw [hsame]
    cases hformat : decoder.format? descriptor with
    | none => exact .ending rfl
    | some format =>
      dsimp only
      cases (source.take (descriptor.length - opcode.length)).supply with
      | full => exact h.complete hvisible hformat opcode _ _
      | short => exact .ending rfl
      | fault detail => exact .ending rfl

/-- **Decoders that have so much in common decode in step**, from any source. -/
theorem decode (h : decoder.Follows Excused Similar address other address') (source : Source) :
    InStep Excused Similar (decoder.decode address source) (other.decode address' source) := by
  unfold Decoder.decode
  rw [h.leadIns]
  cases source.next with
  | mk answer rest =>
    cases answer with
    | endOfData => exact .ending rfl
    | fault detail => exact .ending rfl
    | byte first =>
      dsimp only
      by_cases hlead : first ∈ decoder.instructions.leadIns
      · rw [if_pos hlead, if_pos hlead]
        cases rest.next with
        | mk answer behind =>
          cases answer with
          | endOfData => exact .ending rfl
          | fault detail => exact .ending rfl
          | byte second => exact h.decodeFrom [first, second] behind
      · rw [if_neg hlead, if_neg hlead]
        exact h.decodeFrom [first] rest

end Follows

end Decoder

/-! ## 3. Units -/

namespace Disassembler

variable {d e : Disassembler} {cursor cursor' : Address} {source : Source}

/-- Outside all regions disassemblers read in step where their decoders do. -/
theorem readAt_inStep (houtside : d.regions.at? cursor = none)
    (houtside' : e.regions.at? cursor' = none)
    (hfollows : d.toDecoder.Follows Excused Similar cursor e.toDecoder cursor') (source : Source) :
    InStep Excused Similar (d.readAt cursor source) (e.readAt cursor' source) := by
  unfold readAt
  rw [houtside, houtside']
  exact hfollows.decode source

/-- Disassemblers with the same regions read in step at one cursor, if their decoders do outside
    the regions, and the data of a region is similar to itself. -/
theorem readAt_inStep_of_regions (hregions : e.regions = d.regions)
    (hdata : ∀ region, d.regions.at? cursor = some region → ∀ bytes,
      Similar (region.kind.line cursor bytes) (region.kind.line cursor bytes))
    (hfollows : d.regions.at? cursor = none →
      d.toDecoder.Follows Excused Similar cursor e.toDecoder cursor) (source : Source) :
    InStep Excused Similar (d.readAt cursor source) (e.readAt cursor source) := by
  cases hgoverns : d.regions.at? cursor with
  | none =>
    exact readAt_inStep hgoverns (hregions ▸ hgoverns) (hfollows hgoverns) source
  | some region =>
    unfold readAt
    rw [hregions, hgoverns]
    dsimp only [Region.readUnit]
    cases (source.take (region.unitLength cursor)).supply with
    | full => exact .unit (hdata region hgoverns _)
    | short => exact .ending rfl
    | fault detail => exact .ending rfl

end Disassembler

/-! ## 4. Walks -/

/-- `trace.Alongside Similar Beside other`: the units of the two traces are similar one by one, and
    they ended in the same way, with their cursors beside each other. -/
structure Trace.Alongside (Similar : Line → Line → Prop) (Beside : Address → Address → Prop)
    (trace other : Trace) : Prop where
  units : List.Forall₂ Similar trace.units other.units
  ending : other.ending = trace.ending
  cursor : Beside trace.cursor other.cursor

theorem Trace.Alongside.cons {Beside : Address → Address → Prop} {trace other : Trace}
    {unit unit' : Line} (h : trace.Alongside Similar Beside other) (hunit : Similar unit unit') :
    (trace.cons unit).Alongside Similar Beside (other.cons unit') where
  units := .cons hunit h.units
  ending := h.ending
  cursor := h.cursor

/-- Traces alongside each other with the same units and the same cursor are the same. -/
theorem Trace.Alongside.eq {trace other : Trace} (h : trace.Alongside Eq Eq other) :
    other = trace := by
  obtain ⟨units, ending, cursor⟩ := trace
  obtain ⟨units', ending', cursor'⟩ := other
  obtain ⟨hunits, hending, hcursor⟩ := h
  dsimp only at hunits hending hcursor
  rw [List.forall₂_eq_eq_eq] at hunits
  rw [hunits, hending, hcursor]

namespace Disassembler

/-- **Two walks are in step if every two readings are.** Similar units take the same bytes, so the
    cursors stay beside each other and the walks go on with the same rest of the source. -/
theorem walk_alongside {d e : Disassembler} {Beside : Address → Address → Prop}
    (hadvance : ∀ cursor cursor' length, Beside cursor cursor' →
      Beside (cursor.advance length) (cursor'.advance length))
    (hbytes : ∀ unit other, Similar unit other → other.bytes = unit.bytes)
    (hstep : ∀ cursor cursor' source, Beside cursor cursor' →
      InStep Excused Similar (d.readAt cursor source) (e.readAt cursor' source))
    (stopAfter : Option Nat) {cursor cursor' : Address} (source : Source)
    (hunits : ∀ unit ∈ (d.walk stopAfter cursor source).units, ¬ Excused unit)
    (h : Beside cursor cursor') :
    (d.walk stopAfter cursor source).Alongside Similar Beside
      (e.walk stopAfter cursor' source) := by
  induction hn : source.pending.length using Nat.strongRecOn generalizing cursor cursor' source with
  | _ n ih =>
    subst hn
    rw [walk_eq] at hunits
    rw [walk_eq, walk_eq e]
    by_cases hstop : stopAfter.any (· ≤ source.consumed) = true
    · rw [if_pos hstop, if_pos hstop]
      exact ⟨.nil, rfl, h⟩
    · rw [if_neg hstop] at hunits
      rw [if_neg hstop, if_neg hstop]
      have hread := hstep cursor cursor' source h
      cases hfirst : d.readAt cursor source with
      | mk reading rest =>
        cases hsecond : e.readAt cursor' source with
        | mk reading' rest' =>
          rw [hfirst] at hunits
          rw [hfirst, hsecond] at hread
          cases hread with
          | unit hsimilar =>
            rename_i unit other
            dsimp only
            rw [hbytes unit other hsimilar]
            refine (ih _ (readAt_line_lt hfirst) rest ?_ (hadvance _ _ _ h) rfl).cons hsimilar
            exact fun unit hunit => hunits unit (List.mem_cons_of_mem _ hunit)
          | ending hending =>
            cases reading with
            | line unit => cases hending
            | endOfData => exact ⟨.nil, rfl, h⟩
            | truncated part => exact ⟨.nil, rfl, h⟩
            | failed fault => exact ⟨.nil, rfl, h⟩
          | excused hexcused => exact absurd hexcused (hunits _ List.mem_cons_self)

/-- The same for two walks from one cursor, which stay at one cursor. -/
theorem walk_alongside_of_eq {d e : Disassembler}
    (hbytes : ∀ unit other, Similar unit other → other.bytes = unit.bytes)
    (hstep : ∀ cursor source,
      InStep Excused Similar (d.readAt cursor source) (e.readAt cursor source))
    (stopAfter : Option Nat) (cursor : Address) (source : Source)
    (hunits : ∀ unit ∈ (d.walk stopAfter cursor source).units, ¬ Excused unit) :
    (d.walk stopAfter cursor source).Alongside Similar Eq (e.walk stopAfter cursor source) := by
  have hadvance : ∀ (cursor cursor' : Address) length, cursor = cursor' →
      cursor.advance length = cursor'.advance length := by
    rintro cursor - length rfl
    rfl
  refine walk_alongside hadvance hbytes ?_ stopAfter source hunits rfl
  rintro cursor - source rfl
  exact hstep cursor source

/-- Disassemblers that find the same and are to show it in the same way run in the same way. -/
theorem run_congr {d e : Disassembler} {source : Source} {stopAfter : Option Nat}
    (htrace : e.trace source stopAfter = d.trace source stopAfter) (hstart : e.start = d.start)
    (hlabels : e.labels = d.labels) (hlayout : e.layout = d.layout) (sink : Sink) :
    e.run source stopAfter sink = d.run source stopAfter sink := by
  have hlabelLines : e.labelLines = d.labelLines := by
    funext address
    unfold labelLines
    rw [hlabels]
  have hunitLines : e.unitLines = d.unitLines := by
    funext unit
    unfold unitLines
    rw [hlabelLines, hlayout]
  have hlines : e.writtenLines = d.writtenLines := by
    funext trace
    unfold writtenLines listingLines headerLines endingLines
    rw [hunitLines, hlabelLines, hlayout, hstart]
  unfold run
  rw [htrace, hlines]

end Disassembler

end Disassembly
