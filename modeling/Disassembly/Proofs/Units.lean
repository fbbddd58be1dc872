import Disassembly.Proofs.Conservation

/-!
# The units of a walk

A walk asks for a unit at one cursor after another and ends where it gets none. So what holds of
every answer that reading can give holds of what a walk finds, over any source and with any stop:

* `settles_of_mem_units`: the bytes of a complete unit, read at its address, are that unit again;
* `cutShort_of_ending`: a part that is shown at the end is that of a string its region goes on
  behind.

Both come of `walk_induction`, which has one case for each way in which a walk goes on.
-/

namespace Disassembly.Disassembler

variable {d : Disassembler} {cursor : Address} {source : Source}

/-! ## 1. Answers of one reading -/

/-- `d.Settles unit`: the bytes of `unit`, read at its address, are that unit. -/
def Settles (d : Disassembler) (unit : Line) : Prop :=
  d.scan? unit.address unit.bytes = some { reading := .line unit, taken := unit.bytes }

theorem settles_of_scan? {bytes taken : List UInt8} {unit : Line}
    (h : d.scan? cursor bytes = some { reading := .line unit, taken }) : d.Settles unit := by
  obtain ⟨haddress, hbytes, -, -⟩ := scan?_line h
  have hlocal := scan?_local h []
  rw [List.append_nil] at hlocal
  unfold Settles
  rw [haddress, hbytes]
  exact hlocal

/-- A unit that bytes settle is the first of a passage over them. -/
theorem Passage.cons {last : Address} {bytes taken rest : List UInt8} {unit : Line}
    {units : List Line} (hscan : d.scan? cursor bytes = some { reading := .line unit, taken })
    (hrest : d.Passage (cursor.advance unit.bytes.length) (bytes.drop unit.bytes.length) units last
      rest) : d.Passage cursor bytes (unit :: units) last rest := by
  obtain ⟨-, rfl, -, others, rfl⟩ := scan?_line hscan
  rw [List.drop_left] at hrest
  exact .step hscan hrest

/-- What is read is what the bytes ahead settle, or what there is to say where they settle
    nothing: that the data ends, or the fault behind them. -/
theorem readAt_cases (d : Disassembler) (cursor : Address) (source : Source) :
    (∃ scan, d.scan? cursor source.ahead = some scan ∧
      (d.readAt cursor source).1 = scan.reading) ∨
    d.scan? cursor source.ahead = none ∧
      ((d.readAt cursor source).1 = d.shortfall cursor source.ahead ∨
        ∃ detail, (d.readAt cursor source).1 = .failed (.io detail)) := by
  cases hscan : d.scan? cursor source.ahead with
  | some scan =>
    obtain ⟨rest, hread, -⟩ := readAt_of_scan hscan
    exact Or.inl ⟨scan, rfl, congrArg Prod.fst hread⟩
  | none =>
    have hout := readAt_of_none hscan
    refine Or.inr ⟨rfl, ?_⟩
    cases hfault : source.faultAhead with
    | some detail => exact Or.inr ⟨detail, hout.faulted detail hfault⟩
    | none => exact Or.inl (congrArg Prod.fst (hout.ended hfault))

/-- A unit that was read is settled by the bytes ahead. -/
theorem scan?_of_readAt {unit : Line} (h : (d.readAt cursor source).1 = .line unit) :
    ∃ taken, d.scan? cursor source.ahead = some { reading := .line unit, taken } := by
  rcases readAt_cases d cursor source with ⟨scan, hscan, hread⟩ | ⟨-, hread | ⟨detail, hread⟩⟩
  · obtain ⟨reading, taken⟩ := scan
    rw [hread] at h
    dsimp only at h
    subst h
    exact ⟨taken, hscan⟩
  · rw [hread] at h
    rcases d.shortfall_cases cursor source.ahead with hshort | ⟨part, hshort⟩
    · exact absurd (hshort.symm.trans h) nofun
    · exact absurd (hshort.symm.trans h) nofun
  · exact absurd (hread.symm.trans h) nofun

/-- A unit that was read is settled by its own bytes. -/
theorem settles_of_readAt {unit : Line} (h : (d.readAt cursor source).1 = .line unit) :
    d.Settles unit := by
  obtain ⟨taken, hscan⟩ := scan?_of_readAt h
  exact settles_of_scan? hscan

/-- A unit stands at the cursor where it was read. -/
theorem address_of_readAt {unit : Line} (h : (d.readAt cursor source).1 = .line unit) :
    unit.address = cursor := by
  obtain ⟨taken, hscan⟩ := scan?_of_readAt h
  exact (scan?_line hscan).1

/-- A part that was read is that of a string which its region goes on behind. -/
theorem cutShort_of_readAt {part : Line}
    (h : (d.readAt cursor source).1 = .truncated (some part)) : d.CutShort cursor part := by
  rcases readAt_cases d cursor source with
    ⟨scan, hscan, hread⟩ | ⟨hscan, hread | ⟨detail, hread⟩⟩
  · rcases scan?_cases hscan with ⟨line, hline, -⟩ | ⟨mode, opcode, hfailed⟩
    · exact absurd (hline.symm.trans (hread.symm.trans h)) nofun
    · exact absurd (hfailed.symm.trans (hread.symm.trans h)) nofun
  · have hending : (d.shortfall cursor source.ahead).ending? =
        some (.truncated (some part)) := congrArg Reading.ending? (hread.symm.trans h)
    rcases ending_of_shortfall hending with ⟨he, -⟩ | ⟨he, hcut⟩ | ⟨he, -⟩
    · cases he
    · cases he
      exact cutShort_of_scan?_none hscan hcut
    · cases he
  · exact absurd (hread.symm.trans h) nofun

/-! ## 2. Walks -/

/-- **What a walk finds, by the ways in which it goes on**: it is stopped, it reads a unit and goes
    on behind it, or it reads something else and ends with that. -/
theorem walk_induction {stopAfter : Option Nat} {motive : Address → Trace → Prop}
    (stopped : ∀ cursor, motive cursor { units := [], ending := .interrupted, cursor })
    (step : ∀ cursor source unit trace, (d.readAt cursor source).1 = .line unit →
      motive (cursor.advance unit.bytes.length) trace → motive cursor (trace.cons unit))
    (ends : ∀ cursor source reading ending, (d.readAt cursor source).1 = reading →
      reading.ending? = some ending → motive cursor { units := [], ending, cursor })
    (cursor : Address) (source : Source) : motive cursor (d.walk stopAfter cursor source) := by
  induction hn : source.pending.length using Nat.strongRecOn generalizing cursor source with
  | _ n ih =>
    subst hn
    rw [walk_eq]
    by_cases hstop : stopAfter.any (· ≤ source.consumed) = true
    · rw [if_pos hstop]
      exact stopped cursor
    · rw [if_neg hstop]
      cases hread : d.readAt cursor source with
      | mk reading rest =>
        have hfirst := congrArg Prod.fst hread
        cases reading with
        | line unit =>
          exact step cursor source unit _ hfirst (ih _ (readAt_line_lt hread) _ rest rfl)
        | endOfData => exact ends cursor source _ _ hfirst rfl
        | truncated part => exact ends cursor source _ _ hfirst rfl
        | failed fault => exact ends cursor source _ _ hfirst rfl

variable {stopAfter : Option Nat}

/-- **Every complete unit of a walk is settled by its own bytes.** -/
theorem settles_of_mem_units {unit : Line} (h : unit ∈ (d.walk stopAfter cursor source).units) :
    d.Settles unit := by
  revert unit
  apply walk_induction (motive := fun _ trace => ∀ {unit}, unit ∈ trace.units → d.Settles unit)
  · intro cursor unit hunit
    cases hunit
  · intro cursor source first trace hread ih unit hunit
    rcases List.mem_cons.mp hunit with rfl | hunit
    · exact settles_of_readAt hread
    · exact ih hunit
  · intro cursor source reading ending hread hending unit hunit
    cases hunit

/-- **What is shown at the end of a walk besides complete units is part of a string.** -/
theorem cutShort_of_ending {part : Line}
    (h : (d.walk stopAfter cursor source).ending = .truncated (some part)) :
    d.CutShort (d.walk stopAfter cursor source).cursor part := by
  revert h
  apply walk_induction (motive := fun _ trace => trace.ending = .truncated (some part) →
    d.CutShort trace.cursor part)
  · intro cursor h
    cases h
  · intro cursor source first trace hread ih h
    exact ih h
  · intro cursor source reading ending hread hending h
    dsimp only at h ⊢
    subst h
    cases reading with
    | truncated shown =>
      cases hending
      exact cutShort_of_readAt hread
    | line unit => cases hending
    | endOfData => cases hending
    | failed fault => cases hending

end Disassembly.Disassembler
