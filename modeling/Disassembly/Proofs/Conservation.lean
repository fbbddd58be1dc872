import Disassembly.Processor.Nmos6502
import Disassembly.Proofs.Written

/-!
# No byte is lost

What a listing shows of its input, over whole runs: the units that are shown have the first bytes
of the input, each byte once and in order, and stand at the addresses of their bytes
(`Accounts`, `emitted_accounts`). A string that the end of the data cut short is among the units
that are shown, and its bytes are the last ones; it is no complete unit, so the cursor of the run
stays in front of it.
-/

namespace Disassembly

/-! ## 1. Accounts -/

/-- `Accounts start units bytes rest`: from `start` on, `units` hold the bytes in front of `rest`,
    at least one each, and stand at the addresses of these. -/
structure Accounts (start : Address) (units : List Line) (bytes rest : List UInt8) : Prop where
  bytes_eq : bytes = units.flatMap (·.bytes) ++ rest
  bytes_ne_nil : ∀ unit ∈ units, unit.bytes ≠ []
  address_eq : ∀ i (hi : i < units.length),
    units[i].address = start.advance ((units.take i).flatMap (·.bytes)).length

namespace Accounts

variable {start : Address} {units : List Line} {bytes rest : List UInt8}

/-- One unit more accounts for the bytes that were left. -/
theorem concat (h : Accounts start units bytes rest) {part : Line}
    (haddress : part.address = start.advance (units.flatMap (·.bytes)).length)
    (hbytes : part.bytes = rest) (hne : rest ≠ []) : Accounts start (units ++ [part]) bytes [] where
  bytes_eq := by
    rw [List.flatMap_append, List.flatMap_singleton, hbytes, List.append_nil]
    exact h.bytes_eq
  bytes_ne_nil := by
    intro unit hunit
    rcases List.mem_append.mp hunit with hunit | hunit
    · exact h.bytes_ne_nil unit hunit
    · rw [List.mem_singleton.mp hunit, hbytes]
      exact hne
  address_eq := by
    intro i hi
    by_cases hlt : i < units.length
    · rw [List.getElem_append_left hlt, List.take_append_of_le_length (Nat.le_of_lt hlt)]
      exact h.address_eq i hlt
    · have hlast : i = units.length := by
        rw [List.length_append, List.length_singleton] at hi
        omega
      subst hlast
      rw [List.getElem_concat_length rfl, List.take_left' rfl]
      exact haddress

/-- There are no more units than bytes. -/
theorem length_le (h : Accounts start units bytes rest) : units.length ≤ bytes.length := by
  have hunits : units.length ≤ (units.flatMap (·.bytes)).length := by
    have hne := h.bytes_ne_nil
    clear h
    induction units with
    | nil => exact Nat.le_refl 0
    | cons unit units ih =>
      have hpos := List.length_pos_iff.mpr (hne unit List.mem_cons_self)
      have hrest := ih fun other hother => hne other (List.mem_cons_of_mem unit hother)
      rw [List.flatMap_cons, List.length_append, List.length_cons]
      omega
  rw [h.bytes_eq, List.length_append]
  omega

end Accounts

namespace Disassembler

theorem Passage.accounts {d : Disassembler} {cursor last : Address} {bytes rest : List UInt8}
    {units : List Line} (h : d.Passage cursor bytes units last rest) :
    Accounts cursor units bytes rest :=
  ⟨h.bytes_eq, h.bytes_ne_nil, h.address_eq⟩

/-! ## 2. What is shown -/

/-- The lines behind those of the units that are shown. -/
def closingLines (d : Disassembler) (trace : Trace) : List String :=
  match trace.ending with
  | .complete => d.labelLines trace.cursor ++ ["", d.layout.trailer trace.cursor]
  | .truncated none | .failed _ => d.labelLines trace.cursor
  | .truncated (some _) | .interrupted => []

/-- A listing is its header, the units that are shown, each under its label, and the close. -/
theorem listingLines_eq (d : Disassembler) {trace : Trace}
    (h : ∀ part, trace.ending = .truncated (some part) → part.address = trace.cursor) :
    d.listingLines trace =
      d.headerLines ++ trace.emitted.flatMap d.unitLines ++ d.closingLines trace := by
  unfold listingLines closingLines Trace.emitted
  rw [List.flatMap_append]
  cases hending : trace.ending with
  | complete => simp [endingLines, Ending.part]
  | truncated part =>
    cases part with
    | none => simp [endingLines, Ending.part]
    | some part => simp [endingLines, Ending.part, unitLines, h part hending]
  | interrupted => simp [endingLines, Ending.part]
  | failed fault => simp [endingLines, Ending.part]

/-! ## 3. Runs -/

section Run

variable {d : Disassembler} {bytes : List UInt8} {summary : Summary}

/-- `d.CutShort cursor part`: `part` is a string at `cursor` that the data does not fill, since its
    region goes on behind it. -/
def CutShort (d : Disassembler) (cursor : Address) (part : Line) : Prop :=
  part.address = cursor ∧ ∃ region, d.regions.at? cursor = some region ∧
    region.kind = .string ∧ part.bytes.length < region.unitLength cursor

theorem cutShort_of_scan?_none {cursor : Address} {rest : List UInt8}
    (hscan : d.scan? cursor rest = none) (hcut : d.CutsString cursor rest) :
    d.CutShort cursor (DataKind.string.line cursor rest) := by
  obtain ⟨-, region, hregion, hkind⟩ := hcut
  have hshort : region.scan? cursor rest = none := by
    unfold scan? at hscan
    rw [hregion] at hscan
    exact hscan
  exact ⟨rfl, region, hregion, hkind, Region.length_lt_of_scan?_none hshort⟩

/-- The units that a run shows account for the first bytes of its input, and for all of it where
    the run ended between two units. -/
theorem emitted_accounts (h : (d.run (.ofBytes bytes)).result = .ok summary) :
    ∃ rest, Accounts d.start (d.trace (.ofBytes bytes)).emitted bytes rest ∧
      (summary.outcome = .complete → rest = []) ∧
      ∀ part, (d.trace (.ofBytes bytes)).ending = .truncated (some part) →
        d.CutShort summary.finalAddress part := by
  obtain ⟨rest, hpassage, hscan, hending⟩ := passage_of_run h
  rw [result_run] at h
  have houtcome := (Trace.summary_of_ok h).1
  unfold Trace.emitted
  rcases ending_of_shortfall hending with ⟨he, hrest, -⟩ | ⟨he, hcut⟩ | ⟨he, -, -⟩
  · rw [he] at houtcome ⊢
    refine ⟨rest, ?_, fun _ => hrest, fun part hpart => by cases hpart⟩
    simpa [Ending.part] using hpassage.accounts
  · rw [he] at houtcome ⊢
    refine ⟨[], ?_, fun _ => rfl, fun part hpart => ?_⟩
    · exact hpassage.accounts.concat hpassage.cursor_eq rfl hcut.1
    · cases hpart
      exact cutShort_of_scan?_none hscan hcut
  · rw [he] at houtcome ⊢
    refine ⟨rest, ?_, fun hcomplete => ?_, fun part hpart => by cases hpart⟩
    · simpa [Ending.part] using hpassage.accounts
    · rw [hcomplete] at houtcome
      cases houtcome

/-- **A run that is not interrupted conserves its input.** What it writes are the units it shows,
    between a header and a close; they have the first bytes of the input, all of them where the run
    ended between two units; none is empty, so there are no more of them than bytes; each stands
    at the address of its first byte. The run ends at the address of the first byte behind its
    complete units: all that are shown, except for a string that the data cut short. -/
theorem run_conserves_bytes (d : Disassembler) (bytes : List UInt8) (stopAfter : Option Nat)
    (summary : Summary) (hrun : (d.run (.ofBytes bytes) stopAfter).result = .ok summary)
    (hstop : summary.outcome ≠ .interrupted) :
    let trace := d.trace (.ofBytes bytes) stopAfter
    let emitted := trace.emitted
    (d.run (.ofBytes bytes) stopAfter).text =
      Text.ofLines (d.headerLines ++ emitted.flatMap d.unitLines ++ d.closingLines trace) ∧
    emitted.flatMap (·.bytes) <+: bytes ∧
    (summary.outcome = .complete → emitted.flatMap (·.bytes) = bytes) ∧
    (∀ unit ∈ emitted, 1 ≤ unit.bytes.length) ∧
    summary.lines = emitted.length ∧ summary.lines ≤ bytes.length ∧
    (∀ i (hi : i < emitted.length), emitted[i].address.toNat =
      (d.start.toNat + ((emitted.take i).flatMap (·.bytes)).length) % 65536) ∧
    summary.finalAddress.toNat =
      (d.start.toNat + (trace.units.flatMap (·.bytes)).length) % 65536 ∧
    (emitted = trace.units ∨ summary.outcome = .truncated ∧
      ∃ part, emitted = trace.units ++ [part] ∧ d.CutShort summary.finalAddress part) := by
  intro trace emitted
  have htrace : trace = d.trace (.ofBytes bytes) := trace_of_not_interrupted hrun hstop
  have htext : (d.run (.ofBytes bytes) stopAfter).text = Text.ofLines (d.listingLines trace) :=
    text_run d _ _
  have hresult := result_of_not_interrupted hrun hstop
  obtain ⟨rest, hpassage, -, -⟩ := passage_of_run hresult
  obtain ⟨behind, haccounts, hcomplete, hpart⟩ := emitted_accounts hresult
  rw [← htrace] at hpassage haccounts hpart
  rw [result_run] at hrun
  obtain ⟨houtcome, hcursor, hlines⟩ := Trace.summary_of_ok hrun
  refine ⟨?_, ⟨behind, haccounts.bytes_eq.symm⟩, fun hend => ?_, fun unit hunit => ?_, hlines.symm,
    ?_, fun i hi => ?_, ?_, ?_⟩
  · rw [htext, listingLines_eq d fun part hcut => ?_]
    exact (hpart part hcut).1.trans hcursor.symm
  · have hbytes := haccounts.bytes_eq
    rw [hcomplete hend, List.append_nil] at hbytes
    exact hbytes.symm
  · exact List.length_pos_iff.mpr (haccounts.bytes_ne_nil unit hunit)
  · rw [← hlines]
    exact haccounts.length_le
  · rw [haccounts.address_eq i hi, Address.toNat_advance]
  · rw [hpassage.cursor_eq, Address.toNat_advance]
  · rcases trace.emitted_cases with hshown | ⟨part, hending, hshown⟩
    · exact Or.inl hshown
    · rw [show (d.trace (.ofBytes bytes) stopAfter).ending = _ from hending] at houtcome
      have htruncated : summary.outcome = .truncated := (Option.some.inj houtcome).symm
      exact Or.inr ⟨htruncated, part, hshown, hpart part hending⟩

end Run

/-- A 6502 at the top of the address space, with strings at the bottom of it and labels at both. -/
def wrapped : Disassembler :=
  { ofProcessor Nmos6502.processor { start := 0xFFFE } with
    labels := .ofList [⟨"top", 0xFFFE⟩, ⟨"bottom", 0⟩]
    regions := [⟨0, 7, .string⟩] }

/-- An instruction, and a string that the data cuts short: both are shown, the first is complete. -/
theorem run_conserves_bytes_wrapped :
    let bytes : List UInt8 := [0xA9, 0x42, 0x48, 0x69, 0x00]
    let summary : Summary := { outcome := .truncated, finalAddress := 0, lines := 2 }
    (wrapped.run (.ofBytes bytes)).result = .ok summary ∧ summary.outcome ≠ .interrupted ∧
    (wrapped.trace (.ofBytes bytes)).emitted.flatMap (·.bytes) <+: bytes ∧
    (∀ unit ∈ (wrapped.trace (.ofBytes bytes)).emitted, 1 ≤ unit.bytes.length) ∧
    summary.lines ≤ bytes.length := by
  intro bytes summary
  have htrace : wrapped.trace (.ofBytes bytes) =
      { units := [⟨0xFFFE, [0xA9, 0x42], .instruction "lda" "#$42"⟩]
        ending := .truncated (some (DataKind.string.line 0 [0x48, 0x69, 0x00]))
        cursor := 0 } := by decide +kernel
  have hrun : (wrapped.run (.ofBytes bytes)).result = .ok summary := by
    rw [result_run, htrace]
    rfl
  have hstop : summary.outcome ≠ .interrupted := by decide
  obtain ⟨-, hinitial, -, hpos, -, hle, -⟩ :=
    run_conserves_bytes wrapped bytes none summary hrun hstop
  exact ⟨hrun, hstop, hinitial, hpos, hle⟩

end Disassembler

end Disassembly
