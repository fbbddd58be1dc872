import Disassembly.Proofs.Scan

/-!
# Passages and their ends

A walk passes unit after unit and stops where it can read none. Both parts are said here of bytes
instead of sources:

* `Passage`, the units that some bytes begin with, and what is left behind them; it loses no byte
  (`Passage.bytes_eq`), keeps the cursor in step with the bytes (`Passage.cursor_eq`,
  `Passage.address_eq`), and stands whatever comes behind the bytes (`Passage.append`);
* `Ends`, how a run ends at a cursor in front of bytes that hold no unit;
* `walk_eq_iff`: a walk is a passage and its end, and there is exactly one of each. What a walk
  finds is a matter of the bytes ahead and of what stands behind them, and of nothing else.
-/

namespace Disassembly

/-- How a run ends with a reading that is no unit. -/
def Reading.ending? : Reading → Option Ending
  | .line _ => none
  | .endOfData => some .complete
  | .truncated part => some (.truncated part)
  | .failed fault => some (.failed fault)

namespace Disassembler

/-! ## 1. Passages -/

/-- `d.Passage cursor bytes units last rest`: from `cursor` on, `bytes` begin with `units`; behind
    them the cursor is `last` and the bytes `rest` are left. -/
inductive Passage (d : Disassembler) :
    Address → List UInt8 → List Line → Address → List UInt8 → Prop where
  | refl (cursor : Address) (bytes : List UInt8) : Passage d cursor bytes [] cursor bytes
  | step {cursor last : Address} {line : Line} {units : List Line} {bytes rest : List UInt8}
      (hscan : d.scan? cursor (line.bytes ++ bytes) =
        some { reading := .line line, taken := line.bytes })
      (hrest : Passage d (cursor.advance line.bytes.length) bytes units last rest) :
      Passage d cursor (line.bytes ++ bytes) (line :: units) last rest

namespace Passage

variable {d : Disassembler} {cursor last : Address} {bytes rest : List UInt8} {units : List Line}

/-- No byte is lost on the way, and none is read twice. -/
theorem bytes_eq (h : d.Passage cursor bytes units last rest) :
    bytes = units.flatMap (·.bytes) ++ rest := by
  induction h with
  | refl cursor bytes => rfl
  | step hscan hrest ih => rw [List.flatMap_cons, List.append_assoc, ← ih]

/-- The cursor has moved by the bytes that have been passed. -/
theorem cursor_eq (h : d.Passage cursor bytes units last rest) :
    last = cursor.advance (units.flatMap (·.bytes)).length := by
  induction h with
  | refl cursor bytes => exact (Address.advance_zero cursor).symm
  | step hscan hrest ih =>
    rw [ih, Address.advance_advance, List.flatMap_cons, List.length_append]

theorem bytes_ne_nil (h : d.Passage cursor bytes units last rest) :
    ∀ unit ∈ units, unit.bytes ≠ [] := by
  induction h with
  | refl cursor bytes => simp
  | step hscan hrest ih =>
    intro unit hunit
    rcases List.mem_cons.mp hunit with rfl | hunit
    · exact (scan?_line hscan).2.2.1
    · exact ih unit hunit

/-- Every unit stands where the bytes in front of it have brought the cursor. -/
theorem address_eq (h : d.Passage cursor bytes units last rest) (i : Nat)
    (hi : i < units.length) :
    units[i].address = cursor.advance ((units.take i).flatMap (·.bytes)).length := by
  induction h generalizing i with
  | refl cursor bytes => cases hi
  | step hscan hrest ih =>
    cases i with
    | zero => exact (scan?_line hscan).1.trans (Address.advance_zero _).symm
    | succ i =>
      rw [List.getElem_cons_succ, ih i (Nat.lt_of_succ_lt_succ hi), Address.advance_advance,
        List.take_succ_cons, List.flatMap_cons, List.length_append]

/-- A passage does not look at what comes behind its bytes. -/
theorem append (h : d.Passage cursor bytes units last rest) (more : List UInt8) :
    d.Passage cursor (bytes ++ more) units last (rest ++ more) := by
  induction h with
  | refl cursor bytes => exact .refl cursor _
  | step hscan hrest ih =>
    rw [List.append_assoc]
    refine .step ?_ ih
    rw [← List.append_assoc]
    exact scan?_append hscan more

theorem trans {middle : Address} {others : List Line} {between : List UInt8}
    (h : d.Passage cursor bytes units middle between)
    (h' : d.Passage middle between others last rest) :
    d.Passage cursor bytes (units ++ others) last rest := by
  induction h with
  | refl cursor bytes => exact h'
  | step hscan hrest ih => exact .step hscan (ih h')

end Passage

/-! ## 2. Ends -/

/-- `d.Ends cursor rest fault ending`: at `cursor`, in front of the bytes `rest` behind which
    comes `fault` or the end of the data, a run ends as `ending`. An unknown mode is noticed from
    the bytes alone; otherwise the bytes hold no unit and it matters what stands behind them. -/
inductive Ends (d : Disassembler) (cursor : Address) (rest : List UInt8) (fault : Option String) :
    Ending → Prop where
  | unknownMode {mode : String} {opcode : Nat} {taken : List UInt8}
      (hscan : d.scan? cursor rest =
        some { reading := .failed (.unknownMode mode opcode), taken }) :
      Ends d cursor rest fault (.failed (.unknownMode mode opcode))
  | fault {detail : String} (hscan : d.scan? cursor rest = none)
      (hfault : fault = some detail) : Ends d cursor rest fault (.failed (.io detail))
  | data {ending : Ending} (hscan : d.scan? cursor rest = none) (hfault : fault = none)
      (hending : (d.shortfall cursor rest).ending? = some ending) :
      Ends d cursor rest fault ending

/-- The data ends inside a string: there are bytes of it, and the first region that contains the
    cursor is one of strings. -/
def CutsString (d : Disassembler) (cursor : Address) (rest : List UInt8) : Prop :=
  rest ≠ [] ∧ ∃ region, d.regions.at? cursor = some region ∧ region.kind = .string

/-- **The ways in which data ends**: behind a unit and outside every region; inside a string, which
    is shown as far as it goes; or elsewhere, and then nothing is shown. -/
theorem ending_of_shortfall {d : Disassembler} {cursor : Address} {rest : List UInt8}
    {ending : Ending} (h : (d.shortfall cursor rest).ending? = some ending) :
    (ending = .complete ∧ rest = [] ∧ d.regions.at? cursor = none) ∨
    (ending = .truncated (some (DataKind.string.line cursor rest)) ∧ d.CutsString cursor rest) ∨
    (ending = .truncated none ∧ ¬ d.CutsString cursor rest ∧
      ¬ (rest = [] ∧ d.regions.at? cursor = none)) := by
  unfold shortfall at h
  unfold CutsString
  cases hr : d.regions.at? cursor with
  | none =>
    rw [hr] at h
    dsimp only at h
    split at h
    · rename_i hrest
      cases h
      exact Or.inl ⟨rfl, hrest, rfl⟩
    · rename_i hrest
      cases h
      refine Or.inr (Or.inr ⟨rfl, ?_, fun hend => hrest hend.1⟩)
      rintro ⟨-, region, hregion, -⟩
      cases hregion
  | some region =>
    rw [hr] at h
    cases h
    unfold Region.cutLine
    by_cases hcut : region.kind = .string ∧ rest ≠ []
    · rw [if_pos hcut]
      exact Or.inr (Or.inl ⟨rfl, hcut.2, region, rfl, hcut.1⟩)
    · rw [if_neg hcut]
      refine Or.inr (Or.inr ⟨rfl, ?_, fun hend => by cases hend.2⟩)
      rintro ⟨hrest, other, hother, hkind⟩
      cases hother
      exact hcut ⟨hkind, hrest⟩

/-! ## 3. Walks -/

variable {d : Disassembler} {cursor last : Address} {units : List Line} {rest : List UInt8}
  {source : Source} {ending : Ending}

theorem walk_of_line {line : Line} {after : Source}
    (h : d.readAt cursor source = (.line line, after)) :
    d.walk none cursor source =
      (d.walk none (cursor.advance line.bytes.length) after).cons line := by
  rw [walk_eq, h]
  rfl

theorem walk_of_ending {reading : Reading} (h : (d.readAt cursor source).1 = reading)
    (hending : reading.ending? = some ending) :
    d.walk none cursor source = { units := [], ending, cursor } := by
  rw [walk_eq]
  cases hread : d.readAt cursor source with
  | mk answer after =>
    rw [hread] at h
    subst h
    cases answer with
    | line line => cases hending
    | endOfData =>
      cases hending
      rfl
    | truncated part =>
      cases hending
      rfl
    | failed fault =>
      cases hending
      rfl

theorem walk_of_ends (h : d.Ends cursor source.ahead source.faultAhead ending) :
    d.walk none cursor source = { units := [], ending, cursor } := by
  cases h with
  | unknownMode hscan =>
    obtain ⟨after, hread, -⟩ := readAt_of_scan hscan
    exact walk_of_ending (congrArg Prod.fst hread) rfl
  | fault hscan hfault => exact walk_of_ending ((readAt_of_none hscan).faulted _ hfault) rfl
  | data hscan hfault hending =>
    exact walk_of_ending (congrArg Prod.fst ((readAt_of_none hscan).ended hfault)) hending

/-- A walk over a passage and its end finds just these. -/
theorem walk_of_passage {bytes : List UInt8} (h : d.Passage cursor bytes units last rest)
    (hahead : source.ahead = bytes) (hends : d.Ends last rest source.faultAhead ending) :
    d.walk none cursor source = { units, ending, cursor := last } := by
  induction h generalizing source with
  | refl cursor bytes =>
    subst hahead
    exact walk_of_ends hends
  | step hscan hrest ih =>
    rw [← hahead] at hscan
    obtain ⟨after, hread, hyields⟩ := readAt_of_scan hscan
    have hafter := List.append_cancel_left (hyields.ahead.symm.trans hahead)
    rw [hyields.fault] at hends
    rw [walk_of_line hread, ih hafter hends]
    rfl

/-- From every cursor there is a passage to where a run ends. -/
theorem exists_passage (d : Disassembler) (cursor : Address) (bytes : List UInt8)
    (fault : Option String) :
    ∃ units last rest ending, d.Passage cursor bytes units last rest ∧
      d.Ends last rest fault ending := by
  induction hn : bytes.length using Nat.strongRecOn generalizing cursor bytes with
  | _ n ih =>
    subst hn
    cases hscan : d.scan? cursor bytes with
    | none =>
      cases fault with
      | some detail => exact ⟨_, _, _, _, .refl cursor bytes, .fault hscan rfl⟩
      | none =>
        rcases d.shortfall_cases cursor bytes with hshort | ⟨part, hshort⟩
        · have hending : (d.shortfall cursor bytes).ending? = some .complete := by
            rw [hshort]
            rfl
          exact ⟨_, _, _, _, .refl cursor bytes, .data hscan rfl hending⟩
        · have hending : (d.shortfall cursor bytes).ending? = some (.truncated part) := by
            rw [hshort]
            rfl
          exact ⟨_, _, _, _, .refl cursor bytes, .data hscan rfl hending⟩
    | some scan =>
      obtain ⟨reading, taken⟩ := scan
      rcases scan?_cases hscan with ⟨line, rfl, rfl⟩ | ⟨mode, opcode, rfl⟩
      · obtain ⟨-, -, hne, others, rfl⟩ := scan?_line hscan
        have hlt : others.length < (line.bytes ++ others).length := by
          have hpos := List.length_pos_iff.mpr hne
          rw [List.length_append]
          omega
        obtain ⟨units, last, rest, ending, hpassage, hends⟩ :=
          ih _ hlt (cursor.advance line.bytes.length) others rfl
        exact ⟨_, _, _, _, .step hscan hpassage, hends⟩
      · exact ⟨_, _, _, _, .refl cursor bytes, .unknownMode hscan⟩

/-- **A walk is a passage and its end.** -/
theorem walk_eq_iff {trace : Trace} :
    d.walk none cursor source = trace ↔
      ∃ rest, d.Passage cursor source.ahead trace.units trace.cursor rest ∧
        d.Ends trace.cursor rest source.faultAhead trace.ending := by
  constructor
  · rintro rfl
    obtain ⟨units, last, rest, ending, hpassage, hends⟩ :=
      exists_passage d cursor source.ahead source.faultAhead
    rw [walk_of_passage hpassage rfl hends]
    exact ⟨rest, hpassage, hends⟩
  · rintro ⟨rest, hpassage, hends⟩
    exact walk_of_passage hpassage rfl hends

/-- A walk that was to stop after so many bytes, and did not, is a walk without a stop. -/
theorem walk_of_not_interrupted {stopAfter : Option Nat} (cursor : Address) (source : Source)
    (h : (d.walk stopAfter cursor source).ending ≠ .interrupted) :
    d.walk stopAfter cursor source = d.walk none cursor source := by
  induction hn : source.pending.length using Nat.strongRecOn generalizing cursor source with
  | _ n ih =>
    subst hn
    rw [walk_eq] at h
    rw [walk_eq, walk_eq d none]
    by_cases hstop : stopAfter.any (· ≤ source.consumed) = true
    · rw [if_pos hstop] at h
      exact absurd rfl h
    · rw [if_neg hstop] at h ⊢
      rw [Option.any_none, if_neg Bool.false_ne_true]
      cases hread : d.readAt cursor source with
      | mk reading after =>
        cases reading with
        | line line =>
          rw [hread] at h
          have hwalk := ih _ (readAt_line_lt hread) (cursor.advance line.bytes.length) after h rfl
          exact congrArg (Trace.cons line) hwalk
        | endOfData => rfl
        | truncated part => rfl
        | failed fault => rfl

end Disassembler

end Disassembly
