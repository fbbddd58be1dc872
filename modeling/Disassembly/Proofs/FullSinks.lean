import Disassembly.Proofs.Resumption
import Disassembly.Proofs.Units

/-!
# Sinks that fill up

A run is defined as what it finds and then what becomes of the lines of it. A device is written to
line by line while the input is still being read, so this file first says that it makes no
difference: `runFrom` writes each line before it reads on, and stops at the first that the sink
refuses, and a run is just that (`run_eq_runFrom`).

What a sink with a limit has got by then is the beginning of what a sink without one gets, up to the
limit (`Sink.writeAll_of_le`, `Sink.writeAll_of_lt`). So the run into it either is the run into a
sink without a limit, or it fails with the refusal, and which of these it is depends on the size of
the listing only (`run_into_limited`).
-/

namespace Disassembly

/-! ## 1. Sinks with a limit -/

namespace Sink

variable {sink : Sink} {room : Nat}

theorem extract_of_le {bytes : ByteArray} (h : bytes.size ≤ room) :
    bytes.extract 0 room = bytes := by
  have hmax : max room bytes.size = room := Nat.max_eq_left h
  rw [← hmax]
  exact ByteArray.extract_zero_max_size

theorem write_of_limited (h : sink.room = some room) (bytes : ByteArray) :
    sink.write bytes =
      { sink with held := sink.held ++ bytes.extract 0 room
                  room := some (room - bytes.size) } := by
  rw [write, h]
  rfl

theorem fits_of_limited (h : sink.room = some room) (size : Nat) :
    sink.fits size = decide (size ≤ room) := by
  rw [fits, h]
  rfl

/-- Lines that fit are held, and take so much of the room. -/
theorem writeAll_of_le {lines : List String} (h : sink.room = some room)
    (hle : (Text.ofLines lines).toUTF8.size ≤ room) :
    sink.writeAll (lines.map (· ++ "\n")) =
      ({ sink with held := sink.held ++ (Text.ofLines lines).toUTF8
                   room := some (room - (Text.ofLines lines).toUTF8.size) }, none) := by
  induction lines generalizing sink room with
  | nil =>
    have hempty : sink.held ++ (Text.ofLines []).toUTF8 = sink.held := ByteArray.append_empty
    rw [hempty, show room - (Text.ofLines []).toUTF8.size = room from rfl, ← h]
    rfl
  | cons line lines ih =>
    rw [Text.toUTF8_ofLines_cons, ByteArray.size_append] at hle
    have hfits : sink.fits (line ++ "\n").toUTF8.size = true := by
      rw [fits_of_limited h]
      exact decide_eq_true (by omega)
    rw [List.map_cons, writeAll, if_pos hfits, write_of_limited h, extract_of_le (by omega),
      ih rfl (by omega), Text.toUTF8_ofLines_cons, ByteArray.size_append, ByteArray.append_assoc,
      Nat.sub_sub]

/-- Of lines that do not fit the sink holds as many bytes as it had room for, and the line with the
    first of the others is refused. -/
theorem writeAll_of_lt {lines : List String} (h : sink.room = some room)
    (hlt : room < (Text.ofLines lines).toUTF8.size) :
    ∃ full : Sink, sink.writeAll (lines.map (· ++ "\n")) = (full, some sink.refusal) ∧
      full.held = sink.held ++ (Text.ofLines lines).toUTF8.extract 0 room := by
  induction lines generalizing sink room with
  | nil => cases hlt
  | cons line lines ih =>
    rw [Text.toUTF8_ofLines_cons, ByteArray.size_append] at hlt
    rw [List.map_cons, writeAll, fits_of_limited h, write_of_limited h, Text.toUTF8_ofLines_cons,
      ByteArray.extract_append, Nat.zero_sub]
    by_cases hfits : (line ++ "\n").toUTF8.size ≤ room
    · rw [if_pos (decide_eq_true hfits), extract_of_le hfits, ← ByteArray.append_assoc]
      exact ih rfl (by omega)
    · have hrest : room - (line ++ "\n").toUTF8.size = 0 := by omega
      refine ⟨_, if_neg (by simpa using hfits), ?_⟩
      rw [hrest, ByteArray.extract_same, ByteArray.append_empty]

/-! ## 2. Writing while reading -/

/-- Writes lines, and goes on with the sink that took them; a refusal ends the run. -/
def writing (sink : Sink) (lines : List String) (go : Sink → Report) : Report :=
  match sink.writeAll (lines.map (· ++ "\n")) with
  | (sink, none) => go sink
  | (sink, some refusal) => { result := .error (.io refusal), written := sink.held }

theorem writeAll_append (texts others : List String) (sink : Sink) :
    sink.writeAll (texts ++ others) =
      match sink.writeAll texts with
      | (sink, none) => sink.writeAll others
      | (sink, some refusal) => (sink, some refusal) := by
  induction texts generalizing sink with
  | nil => rfl
  | cons text texts ih =>
    rw [List.cons_append, writeAll, writeAll]
    by_cases hfits : sink.fits text.toUTF8.size = true
    · rw [if_pos hfits, if_pos hfits]
      exact ih _
    · rw [if_neg hfits, if_neg hfits]

/-- Lines may be written in parts. -/
theorem writing_append (sink : Sink) (lines others : List String) (go : Sink → Report) :
    sink.writing (lines ++ others) go =
      sink.writing lines fun sink => sink.writing others go := by
  unfold writing
  rw [List.map_append, writeAll_append]
  cases sink.writeAll (lines.map (· ++ "\n")) with
  | mk after refused =>
    cases refused with
    | none => rfl
    | some refusal => rfl

end Sink

namespace Disassembler

variable {d : Disassembler} {cursor : Address} {source : Source} {stopAfter : Option Nat}

/-- A run from a cursor on, behind so many units that are shown already. Each line is written
    before the run reads on: the label of the cursor, then the unit that is read there. -/
def runFrom (d : Disassembler) (stopAfter : Option Nat) (lines : Nat) (cursor : Address)
    (source : Source) (sink : Sink) : Report :=
  let sum outcome lines (sink : Sink) : Report :=
    { result := .ok { outcome, finalAddress := cursor, lines }, written := sink.held }
  if stopAfter.any (· ≤ source.consumed) then sum .interrupted lines sink
  else sink.writing (d.labelLines cursor) fun sink =>
    match _h : d.readAt cursor source with
    | (.line unit, rest) => sink.writing [d.layout.line unit] fun sink =>
        runFrom d stopAfter (lines + 1) (cursor.advance unit.bytes.length) rest sink
    | (.endOfData, _) => sink.writing ["", d.layout.trailer cursor] (sum .complete lines)
    | (.truncated part, _) => sink.writing (part.toList.map d.layout.line)
        (sum .truncated (lines + part.toList.length))
    | (.failed fault, _) => { result := .error fault, written := sink.held }
termination_by source.pending.length
decreasing_by exact readAt_line_lt _h

/-- What a run answers once its lines have been written, behind so many units that are shown
    already. -/
def sumUp (lines : Nat) (trace : Trace) (sink : Sink) : Report where
  result := trace.summary.map fun summary => { summary with lines := lines + summary.lines }
  written := sink.held

theorem sumUp_cons (lines : Nat) (unit : Line) (trace : Trace) :
    sumUp lines (trace.cons unit) = sumUp (lines + 1) trace := by
  funext sink
  have hsummary : (trace.cons unit).summary = _ := Trace.summary_after [unit] trace
  unfold sumUp
  rw [hsummary]
  cases trace.summary with
  | error fault => rfl
  | ok summary =>
    simp only [Except.map, List.length_singleton]
    rw [Nat.add_assoc]

/-- **Writing while reading comes to what reading and then writing comes to.** -/
theorem runFrom_eq (d : Disassembler) (stopAfter : Option Nat) (lines : Nat) (cursor : Address)
    (source : Source) (sink : Sink) :
    d.runFrom stopAfter lines cursor source sink =
      let trace := d.walk stopAfter cursor source
      sink.writing (trace.units.flatMap d.unitLines ++ d.endingLines trace.cursor trace.ending)
        (sumUp lines trace) := by
  induction hn : source.pending.length using Nat.strongRecOn
    generalizing lines cursor source sink with
  | _ n ih =>
    subst hn
    rw [runFrom, walk_eq]
    by_cases hstop : stopAfter.any (· ≤ source.consumed) = true
    · rw [if_pos hstop, if_pos hstop]
      rfl
    · rw [if_neg hstop, if_neg hstop]
      split <;> rename_i hread <;> rw [hread]
      · rename_i unit rest
        have hunit : unit.address = cursor := address_of_readAt (congrArg Prod.fst hread)
        let trace := d.walk stopAfter (cursor.advance unit.bytes.length) rest
        have hlines : (trace.cons unit).units.flatMap d.unitLines ++
            d.endingLines trace.cursor trace.ending =
            d.labelLines cursor ++ ([d.layout.line unit] ++
              (trace.units.flatMap d.unitLines ++ d.endingLines trace.cursor trace.ending)) := by
          simp [Trace.cons, unitLines, hunit]
        show _ = sink.writing ((trace.cons unit).units.flatMap d.unitLines ++
          d.endingLines trace.cursor trace.ending) (sumUp lines (trace.cons unit))
        rw [sumUp_cons, hlines, Sink.writing_append]
        refine congrArg (sink.writing _) (funext fun sink => ?_)
        rw [Sink.writing_append]
        refine congrArg (sink.writing _) (funext fun sink => ?_)
        exact ih _ (readAt_line_lt hread) _ _ _ sink rfl
      · exact (Sink.writing_append sink _ _ _).symm
      · rename_i part rest
        have hsum : sumUp lines { units := [], ending := .truncated part, cursor } = fun sink =>
            { result := .ok { outcome := .truncated, finalAddress := cursor,
                              lines := lines + part.toList.length }
              written := sink.held } := by
          funext sink
          simp [sumUp, Trace.summary, Except.map]
        dsimp only
        rw [hsum]
        exact (Sink.writing_append sink _ _ _).symm
      · rfl

/-- **A run writes while it reads**, and reads no further once the sink refuses a line. -/
theorem run_eq_runFrom (d : Disassembler) (source : Source) (stopAfter : Option Nat)
    (sink : Sink) : d.run source stopAfter sink =
      sink.writing d.headerLines (d.runFrom stopAfter 0 d.start source) := by
  let trace := d.trace source stopAfter
  have hsum : sumUp 0 trace = fun sink => { result := trace.summary, written := sink.held } := by
    funext sink
    unfold sumUp
    cases trace.summary with
    | error fault => rfl
    | ok summary => simp [Except.map]
  calc d.run source stopAfter sink
    _ = sink.writing (d.listingLines trace) (sumUp 0 trace) := by
        rw [hsum]
        rfl
    _ = sink.writing d.headerLines fun sink => sink.writing
          (trace.units.flatMap d.unitLines ++ d.endingLines trace.cursor trace.ending)
          (sumUp 0 trace) := by
        rw [listingLines, List.append_assoc, Sink.writing_append]
    _ = sink.writing d.headerLines (d.runFrom stopAfter 0 d.start source) :=
        congrArg (sink.writing _) (funext fun sink => (d.runFrom_eq _ _ _ _ sink).symm)

/-! ## 3. Runs into a sink with a limit -/

/-- **A run into a sink with a limit writes what it would write without one, up to the limit.** With
    room for its whole listing it is the run into a sink without a limit, whatever that comes to;
    with less, by whatever number of bytes, it fails with the refusal of the sink, even where that
    run fails too, and the sink is full of the first bytes of the listing. -/
theorem run_into_limited (d : Disassembler) (source : Source) (stopAfter : Option Nat) (room : Nat)
    (refusal : String) :
    let sink : Sink := { room := some room, refusal }
    let whole := d.run source stopAfter
    d.run source stopAfter sink =
      sink.writing d.headerLines (d.runFrom stopAfter 0 d.start source) ∧
    d.run source stopAfter sink =
      if whole.written.size ≤ room then whole
      else { result := .error (.io refusal), written := whole.written.extract 0 room } := by
  intro sink whole
  refine ⟨run_eq_runFrom d source stopAfter sink, ?_⟩
  let lines := d.listingLines (d.trace source stopAfter)
  have hroom : sink.room = some room := rfl
  have hwhole : whole = { result := (d.trace source stopAfter).summary
                          written := (Text.ofLines lines).toUTF8 } := run_eq d source stopAfter
  rw [hwhole, run, writtenLines]
  by_cases hfits : (Text.ofLines lines).toUTF8.size ≤ room
  · rw [if_pos hfits, Sink.writeAll_of_le hroom hfits]
    dsimp only
    rw [show sink.held = ByteArray.empty from rfl, ByteArray.empty_append]
  · obtain ⟨full, hwrite, hheld⟩ :=
      Sink.writeAll_of_lt hroom (Nat.lt_of_not_le hfits)
    rw [if_neg hfits, hwrite]
    dsimp only
    rw [hheld, show sink.held = ByteArray.empty from rfl, ByteArray.empty_append]

end Disassembler

end Disassembly
