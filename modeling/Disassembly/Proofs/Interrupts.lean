import Disassembly.Proofs.Conservation

/-!
# Interrupted runs

The signal to stop may come while any byte is read, and it is looked at between units only. So a
run is interrupted behind the first of its units with which so many bytes have been read
(`walk_of_reached`), and if there is none, because these bytes reach into what is behind the
complete units or beyond the input, the signal is not noticed at all (`walk_of_not_reached`).

What has been read at a cursor is what the units in front of it hold: a reader takes no byte that
is not of the unit it reads.
-/

namespace Disassembly.Disassembler

variable {d : Disassembler} {cursor last : Address} {bytes rest : List UInt8} {units : List Line}
  {source : Source} {count : Nat}

/-- How many bytes units have. -/
def span (units : List Line) : Nat := (units.flatMap (·.bytes)).length

theorem span_cons (unit : Line) (units : List Line) :
    span (unit :: units) = unit.bytes.length + span units := by
  unfold span
  rw [List.flatMap_cons, List.length_append]

/-- The first units of a passage make a passage. -/
theorem Passage.take (h : d.Passage cursor bytes units last rest) (k : Nat) :
    ∃ middle between, d.Passage cursor bytes (units.take k) middle between := by
  induction h generalizing k with
  | refl cursor bytes =>
    rw [List.take_nil]
    exact ⟨cursor, bytes, .refl cursor bytes⟩
  | step hscan hrest ih =>
    cases k with
    | zero => exact ⟨_, _, .refl _ _⟩
    | succ k =>
      obtain ⟨middle, between, hpassage⟩ := ih k
      exact ⟨middle, between, .step hscan hpassage⟩

theorem stops_iff : (some count).any (· ≤ source.consumed) = true ↔ count ≤ source.consumed := by
  rw [Option.any_some, decide_eq_true_iff]

/-- **A walk is interrupted behind the unit with which so many bytes have been read**, whatever
    there is behind it. -/
theorem walk_of_reached (h : d.Passage cursor bytes units last rest)
    (hahead : source.ahead = bytes)
    (hbefore : ∀ j < units.length, source.consumed + span (units.take j) < count)
    (hreached : count ≤ source.consumed + span units) :
    d.walk (some count) cursor source = { units, ending := .interrupted, cursor := last } := by
  induction h generalizing source with
  | refl cursor bytes => rw [walk_eq, if_pos (stops_iff.mpr hreached)]
  | @step cursor last line units bytes rest hscan hrest ih =>
    have hgoes : ¬ count ≤ source.consumed := Nat.not_le.mpr (hbefore 0 (Nat.succ_pos _))
    rw [← hahead] at hscan
    obtain ⟨after, hread, hyields⟩ := readAt_of_scan hscan
    have hafter := List.append_cancel_left (hyields.ahead.symm.trans hahead)
    have hconsumed : after.consumed = source.consumed + line.bytes.length := hyields.consumed
    rw [span_cons] at hreached
    have hwalk := ih hafter (fun j hj => ?_) (by omega)
    · rw [walk_eq, if_neg (mt stops_iff.mp hgoes), hread]
      exact congrArg (Trace.cons line) hwalk
    · have hlt := hbefore (j + 1) (Nat.succ_lt_succ hj)
      rw [List.take_succ_cons, span_cons] at hlt
      omega

/-- **Where the complete units have fewer bytes, the signal is not noticed.** -/
theorem walk_of_not_reached {ending : Ending} (h : d.Passage cursor bytes units last rest)
    (hahead : source.ahead = bytes) (hends : d.Ends last rest source.faultAhead ending)
    (hbefore : source.consumed + span units < count) :
    d.walk (some count) cursor source = { units, ending, cursor := last } := by
  induction h generalizing source with
  | refl cursor bytes =>
    have hgoes : ¬ count ≤ source.consumed := Nat.not_le.mpr hbefore
    -- the walk without a signal finds no unit here, so neither does this one, and it ends alike
    subst hahead
    have hwalk := walk_of_ends hends
    rw [walk_eq, if_neg (mt stops_iff.mp hgoes)]
    rw [walk_eq, Option.any_none, if_neg Bool.false_ne_true] at hwalk
    cases hread : d.readAt cursor source with
    | mk reading after =>
      rw [hread] at hwalk
      cases reading with
      | line unit => cases congrArg Trace.units hwalk
      | endOfData => exact hwalk
      | truncated part => exact hwalk
      | failed fault => exact hwalk
  | @step cursor last line units bytes rest hscan hrest ih =>
    rw [span_cons] at hbefore
    have hgoes : ¬ count ≤ source.consumed := by omega
    rw [← hahead] at hscan
    obtain ⟨after, hread, hyields⟩ := readAt_of_scan hscan
    have hafter := List.append_cancel_left (hyields.ahead.symm.trans hahead)
    have hconsumed : after.consumed = source.consumed + line.bytes.length := hyields.consumed
    rw [hyields.fault] at hends
    rw [walk_eq, if_neg (mt stops_iff.mp hgoes), hread]
    exact congrArg (Trace.cons line) (ih hafter hends (by omega))

/-- A run finds its first `k` units if they are the fewest that have so many bytes. -/
theorem exists_trace_of_reached {k : Nat} (hfresh : source.consumed = 0)
    (hk : k ≤ (d.trace source).units.length)
    (hbefore : ∀ j < k, span ((d.trace source).units.take j) < count)
    (hreached : count ≤ span ((d.trace source).units.take k)) :
    ∃ last : Address,
      last.toNat = (d.start.toNat + span ((d.trace source).units.take k)) % 65536 ∧
      d.trace source (some count) =
        { units := (d.trace source).units.take k, ending := .interrupted, cursor := last } := by
  obtain ⟨rest, hpassage, -⟩ := walk_eq_iff.mp (rfl : d.walk none d.start source = _)
  obtain ⟨last, between, hfirst⟩ := hpassage.take k
  refine ⟨last, ?_, walk_of_reached hfirst rfl (fun j hj => ?_) ?_⟩
  · rw [hfirst.cursor_eq, Address.toNat_advance]
    rfl
  · rw [List.length_take] at hj
    rw [hfresh, Nat.zero_add, List.take_take, Nat.min_eq_left (by omega)]
    exact hbefore j (by omega)
  · rw [hfresh, Nat.zero_add]
    exact hreached

/-- A run finds what it does without a signal if its units have fewer bytes. -/
theorem trace_of_not_reached (hfresh : source.consumed = 0)
    (hbefore : span (d.trace source).units < count) :
    d.trace source (some count) = d.trace source := by
  obtain ⟨rest, hpassage, hends⟩ := walk_eq_iff.mp (rfl : d.walk none d.start source = _)
  refine walk_of_not_reached hpassage rfl hends ?_
  rw [hfresh, Nat.zero_add]
  exact hbefore

/-- **A run is interrupted between two units.** When the signal comes with byte number `count` of an
    input, or before the first byte if that is none, let `k` be the least number of complete units
    that have so many bytes. If there is one, the run ends behind these units, at the cursor there,
    and has written its header and them, each under its label; this is how the run without a signal
    begins. If there is none, the run is that without a signal. -/
theorem run_interrupted (d : Disassembler) (events : List ReadEvent) (count : Nat) :
    let source : Source := { pending := events }
    let units := (d.trace source).units
    (∀ k ≤ units.length, count ≤ span (units.take k) →
      (∀ j < k, span (units.take j) < count) →
      ∃ last : Address, last.toNat = (d.start.toNat + span (units.take k)) % 65536 ∧
        (d.run source (some count)).result =
          .ok { outcome := .interrupted, finalAddress := last, lines := k } ∧
        (d.run source (some count)).text =
          Text.ofLines (d.headerLines ++ (units.take k).flatMap d.unitLines) ∧
        ∃ behind, (d.run source).text = (d.run source (some count)).text ++ behind) ∧
    ((∀ k ≤ units.length, span (units.take k) < count) →
      d.run source (some count) = d.run source) := by
  intro source units
  refine ⟨fun k hk hreached hbefore => ?_, fun hbefore => ?_⟩
  · obtain ⟨last, hlast, htrace⟩ := exists_trace_of_reached rfl hk hbefore hreached
    have htext : (d.run source (some count)).text =
        Text.ofLines (d.headerLines ++ (units.take k).flatMap d.unitLines) := by
      rw [text_run, htrace, listingLines]
      exact congrArg Text.ofLines (List.append_nil _)
    have hunits : units.flatMap d.unitLines =
        (units.take k).flatMap d.unitLines ++ (units.drop k).flatMap d.unitLines := by
      rw [← List.flatMap_append, List.take_append_drop]
    refine ⟨last, hlast, ?_, htext, ?_⟩
    · rw [result_run, htrace]
      unfold Trace.summary
      dsimp only
      rw [List.length_take, Nat.min_eq_left hk]
    · rw [htext, text_run, listingLines, hunits, ← List.append_assoc, List.append_assoc,
        Text.ofLines_append]
      exact ⟨_, rfl⟩
  · have hspan := hbefore units.length (Nat.le_refl _)
    rw [List.take_length] at hspan
    rw [run_eq, run_eq, trace_of_not_reached rfl hspan]

/-- A signal with the first byte of an instruction stops the run behind it, in front of the label of
    the next cursor; a signal with the first byte of the string that the data cuts short comes too
    late. -/
theorem run_interrupted_wrapped :
    let events : List ReadEvent := [0xA9, 0x42, 0x48, 0x69, 0x00].map .byte
    let source : Source := { pending := events }
    (∃ behind, (wrapped.run source (some 1)).result =
        .ok { outcome := .interrupted, finalAddress := 0, lines := 1 } ∧
      (wrapped.run source).text = (wrapped.run source (some 1)).text ++ behind) ∧
    wrapped.run source (some 3) = wrapped.run source := by
  intro events source
  have hunits : (wrapped.trace source).units =
      [⟨0xFFFE, [0xA9, 0x42], .instruction "lda" "#$42"⟩] := by decide +kernel
  constructor
  · obtain ⟨last, hlast, hresult, -, behind, htext⟩ :=
      (run_interrupted wrapped events 1).1 1 (by rw [hunits]; decide) (by rw [hunits]; decide)
        (by rw [hunits]; decide)
    rw [hunits] at hlast
    have hbottom : last = 0 := UInt16.toNat_inj.mp hlast
    rw [hbottom] at hresult
    exact ⟨behind, hresult, htext⟩
  · exact (run_interrupted wrapped events 3).2 (by rw [hunits]; decide)

end Disassembly.Disassembler
