import Disassembly.Proofs.Ahead
import Disassembly.Trace

/-!
# Units in a list of bytes

A unit is read from a source byte by byte. This file says what comes of it in terms of the bytes
ahead alone, without a source:

* `scan?`, of a decoder, of a region and of a disassembler: the reading that the first of some
  bytes settle, and those bytes; nothing, where the bytes run out before anything is settled;
* `readAt_of_scan`, `readAt_of_none`: a source is read as its bytes ahead say, and where they settle
  nothing, the end of the data or the fault behind them decides;
* `scan?_local`: no byte behind the ones taken is looked at, so what some bytes settle stays
  settled whatever comes behind them (`scan?_append`);
* `scan?_line`: a unit has the bytes it took, all of them, at least one, and no others.
-/

namespace Disassembly

/-- A reading that some bytes settle, and the bytes it takes. -/
structure Scan where
  reading : Reading
  taken : List UInt8
deriving DecidableEq, Repr

/-- A reading that took exactly the bytes `taken`: their unit, or the fault of an opcode among
    them. The end of the data and faults of the device are no such readings. -/
def Reading.Settled (address : Address) (taken : List UInt8) : Reading → Prop
  | .line unit => unit.address = address ∧ unit.bytes = taken
  | .failed (.unknownMode _ _) => True
  | _ => False

/-- The answer of a reader for which the bytes ahead of a source did not suffice: a reading of its
    own where the data ends behind them, and the fault where there is one. -/
structure Source.RunsOut (source : Source) (atEnd : Reading) (answer : Reading × Source) :
    Prop where
  ended : source.faultAhead = none → answer = (atEnd, source.spent)
  faulted : ∀ detail, source.faultAhead = some detail → answer.1 = .failed (.io detail)

theorem Source.Yields.runsOut {source after : Source} {bytes : List UInt8} {atEnd : Reading}
    {answer : Reading × Source} (h : source.Yields bytes after)
    (hout : after.RunsOut atEnd answer) : source.RunsOut atEnd answer where
  ended hfault := h.spent_eq ▸ hout.ended (h.fault.symm.trans hfault)
  faulted detail hfault := hout.faulted detail (h.fault.symm.trans hfault)

/-! ## 1. Instructions -/

namespace Decoder

variable {decoder : Decoder} {address : Address} {opcode bytes : List UInt8} {scan : Scan}

/-- What the bytes behind an opcode settle. -/
def scanFrom? (decoder : Decoder) (address : Address) (opcode bytes : List UInt8) : Option Scan :=
  let key := Opcode.ofBytes opcode
  match decoder.visible? key with
  | none => some { reading := .line (decoder.invalid address opcode), taken := opcode }
  | some descriptor =>
    match decoder.format? descriptor with
    | none => some { reading := .failed (.unknownMode descriptor.mode key), taken := opcode }
    | some format =>
      let count := descriptor.length - opcode.length
      if count ≤ bytes.length then
        let operands := bytes.take count
        some { reading := decoder.complete address opcode operands descriptor format
               taken := opcode ++ operands }
      else none

/-- What some bytes settle where an instruction is to be decoded. -/
def scan? (decoder : Decoder) (address : Address) : List UInt8 → Option Scan
  | [] => none
  | first :: bytes =>
    if first ∈ decoder.instructions.leadIns then
      match bytes with
      | [] => none
      | second :: bytes => decoder.scanFrom? address [first, second] bytes
    else decoder.scanFrom? address [first] bytes

theorem completeExtended_settled (decoder : Decoder) (address : Address)
    (opcode operands : List UInt8) :
    (decoder.completeExtended address opcode operands).Settled address (opcode ++ operands) := by
  unfold completeExtended
  cases operands.getLast? with
  | none => exact ⟨rfl, rfl⟩
  | some last =>
    dsimp only
    cases decoder.visible? (Opcode.ofBytes (opcode ++ [last])) with
    | none => exact ⟨rfl, rfl⟩
    | some descriptor =>
      dsimp only
      cases decoder.format? descriptor with
      | none => exact trivial
      | some format => exact ⟨rfl, rfl⟩

theorem complete_settled (decoder : Decoder) (address : Address) (opcode operands : List UInt8)
    (descriptor : Descriptor) (format : OperandFormat) :
    (decoder.complete address opcode operands descriptor format).Settled address
      (opcode ++ operands) := by
  unfold complete
  split
  · exact completeExtended_settled decoder address opcode operands
  · exact ⟨rfl, rfl⟩

/-- The three ways in which bytes settle something behind an opcode: it means nothing, its mode is
    unknown, or its operands are there. -/
theorem scanFrom?_cases (h : decoder.scanFrom? address opcode bytes = some scan) :
    (decoder.visible? (Opcode.ofBytes opcode) = none ∧
      scan = { reading := .line (decoder.invalid address opcode), taken := opcode }) ∨
    (∃ descriptor, decoder.visible? (Opcode.ofBytes opcode) = some descriptor ∧
      decoder.format? descriptor = none ∧
      scan = { reading := .failed (.unknownMode descriptor.mode (Opcode.ofBytes opcode))
               taken := opcode }) ∨
    ∃ descriptor format, decoder.visible? (Opcode.ofBytes opcode) = some descriptor ∧
      decoder.format? descriptor = some format ∧
      descriptor.length - opcode.length ≤ bytes.length ∧
      let operands := bytes.take (descriptor.length - opcode.length)
      scan = { reading := decoder.complete address opcode operands descriptor format
               taken := opcode ++ operands } := by
  simp only [scanFrom?] at h
  cases hv : decoder.visible? (Opcode.ofBytes opcode) with
  | none =>
    rw [hv] at h
    exact Or.inl ⟨rfl, (Option.some.inj h).symm⟩
  | some descriptor =>
    rw [hv] at h
    dsimp only at h
    cases hf : decoder.format? descriptor with
    | none =>
      rw [hf] at h
      exact Or.inr (Or.inl ⟨descriptor, rfl, hf, (Option.some.inj h).symm⟩)
    | some format =>
      rw [hf] at h
      dsimp only at h
      split at h
      · rename_i hle
        exact Or.inr (Or.inr ⟨descriptor, format, rfl, hf, hle, (Option.some.inj h).symm⟩)
      · cases h

/-- **All there is to know of `scanFrom?`**: it takes the opcode and the operand bytes that come
    next, settles a reading of just these, and settles it whatever stands behind them. -/
theorem scanFrom?_spec (h : decoder.scanFrom? address opcode bytes = some scan) :
    ∃ operands rest, scan.taken = opcode ++ operands ∧ bytes = operands ++ rest ∧
      scan.reading.Settled address scan.taken ∧
      ∀ more, decoder.scanFrom? address opcode (operands ++ more) = some scan := by
  rcases scanFrom?_cases h with ⟨hv, rfl⟩ | ⟨descriptor, hv, hf, rfl⟩ |
    ⟨descriptor, format, hv, hf, hle, rfl⟩
  · refine ⟨[], bytes, (List.append_nil _).symm, rfl, ⟨rfl, rfl⟩, fun more => ?_⟩
    simp only [scanFrom?, hv]
  · refine ⟨[], bytes, (List.append_nil _).symm, rfl, trivial, fun more => ?_⟩
    simp only [scanFrom?, hv, hf]
  · have hlen : (bytes.take (descriptor.length - opcode.length)).length =
        descriptor.length - opcode.length := by
      rw [List.length_take]
      omega
    refine ⟨_, _, rfl, (List.take_append_drop _ _).symm, complete_settled .., fun more => ?_⟩
    simp only [scanFrom?, hv, hf]
    rw [if_pos (by rw [List.length_append, hlen]; omega), List.take_left' hlen]

/-- What a decoder settles takes at least one byte, and only bytes that are there. -/
theorem scan?_spec (h : decoder.scan? address bytes = some scan) :
    scan.taken ≠ [] ∧ scan.taken <+: bytes ∧ scan.reading.Settled address scan.taken ∧
      ∀ more, decoder.scan? address (scan.taken ++ more) = some scan := by
  cases bytes with
  | nil => cases h
  | cons first bytes =>
    unfold scan? at h
    dsimp only at h
    split at h
    · rename_i hlead
      cases bytes with
      | nil => cases h
      | cons second bytes =>
        obtain ⟨operands, rest, htaken, rfl, hsettled, hlocal⟩ := scanFrom?_spec h
        refine ⟨by simp [htaken], ⟨rest, by simp [htaken]⟩, hsettled, fun more => ?_⟩
        rw [htaken]
        simpa [scan?, hlead] using hlocal more
    · rename_i hlead
      obtain ⟨operands, rest, htaken, rfl, hsettled, hlocal⟩ := scanFrom?_spec h
      refine ⟨by simp [htaken], ⟨rest, by simp [htaken]⟩, hsettled, fun more => ?_⟩
      rw [htaken]
      simpa [scan?, hlead] using hlocal more

/-! ### Decoding from a source -/

variable {source : Source}

theorem decodeFrom_of_scan (h : decoder.scanFrom? address opcode source.ahead = some scan) :
    ∃ operands rest, scan.taken = opcode ++ operands ∧
      decoder.decodeFrom address opcode source = (scan.reading, rest) ∧
      source.Yields operands rest := by
  rcases scanFrom?_cases h with ⟨hv, rfl⟩ | ⟨descriptor, hv, hf, rfl⟩ |
    ⟨descriptor, format, hv, hf, hle, rfl⟩
  · refine ⟨[], source, (List.append_nil _).symm, ?_, .refl source⟩
    simp only [decodeFrom, hv]
  · refine ⟨[], source, (List.append_nil _).symm, ?_, .refl source⟩
    simp only [decodeFrom, hv, hf]
  · obtain ⟨rest, htake, hyields⟩ := Source.take_of_le hle
    refine ⟨_, rest, rfl, ?_, hyields⟩
    simp only [decodeFrom, hv, hf, htake]

theorem scanFrom?_eq_none (h : decoder.scanFrom? address opcode bytes = none) :
    ∃ descriptor format, decoder.visible? (Opcode.ofBytes opcode) = some descriptor ∧
      decoder.format? descriptor = some format ∧
      bytes.length < descriptor.length - opcode.length := by
  simp only [scanFrom?] at h
  cases hv : decoder.visible? (Opcode.ofBytes opcode) with
  | none =>
    rw [hv] at h
    cases h
  | some descriptor =>
    rw [hv] at h
    dsimp only at h
    cases hf : decoder.format? descriptor with
    | none =>
      rw [hf] at h
      cases h
    | some format =>
      rw [hf] at h
      dsimp only at h
      split at h
      · cases h
      · rename_i hlt
        exact ⟨descriptor, format, rfl, hf, Nat.lt_of_not_le hlt⟩

theorem decodeFrom_of_none (h : decoder.scanFrom? address opcode source.ahead = none) :
    source.RunsOut (.truncated none) (decoder.decodeFrom address opcode source) := by
  obtain ⟨descriptor, format, hv, hf, hlt⟩ := scanFrom?_eq_none h
  constructor
  · intro hfault
    simp only [decodeFrom, hv, hf, Source.take_of_end hlt hfault]
  · intro detail hfault
    obtain ⟨rest, htake⟩ := Source.take_of_fault hlt hfault
    simp only [decodeFrom, hv, hf, htake]

/-- Decoding reads the opcode first, one byte or two, and goes on from there; unless there is not
    even that much. -/
theorem decode_opcode (decoder : Decoder) (address : Address) (source : Source) :
    (∃ opcode after, source.Yields opcode after ∧
      decoder.scan? address source.ahead = decoder.scanFrom? address opcode after.ahead ∧
      opcode ≠ [] ∧ decoder.decode address source = decoder.decodeFrom address opcode after) ∨
    (decoder.scan? address source.ahead = none ∧
      source.RunsOut (if source.ahead = [] then .endOfData else .truncated none)
        (decoder.decode address source)) := by
  cases hs : source.ahead with
  | nil =>
    refine Or.inr ⟨rfl, fun hfault => ?_, fun detail hfault => ?_⟩
    · simp only [decode, Source.next_of_end hs hfault, if_true]
    · obtain ⟨rest, hnext⟩ := Source.next_of_fault hs hfault
      simp only [decode, hnext]
  | cons first bytes =>
    obtain ⟨after, hnext, hyields, rfl⟩ := Source.next_of_cons hs
    by_cases hlead : first ∈ decoder.instructions.leadIns
    · cases hafter : after.ahead with
      | nil =>
        refine Or.inr ⟨by simp [scan?, hlead], ?_⟩
        refine hyields.runsOut ⟨fun hfault => ?_, fun detail hfault => ?_⟩
        · simp [decode, hnext, hlead, Source.next_of_end hafter hfault]
        · obtain ⟨rest, hsecond⟩ := Source.next_of_fault hafter hfault
          simp [decode, hnext, hlead, hsecond]
      | cons second bytes =>
        obtain ⟨behind, hsecond, hyields', rfl⟩ := Source.next_of_cons hafter
        refine Or.inl ⟨[first, second], behind, hyields.trans hyields', ?_, by simp, ?_⟩
        · simp [scan?, hlead]
        · simp [decode, hnext, hlead, hsecond]
    · refine Or.inl ⟨[first], after, hyields, ?_, by simp, ?_⟩
      · simp [scan?, hlead]
      · simp [decode, hnext, hlead]

/-- What the bytes ahead settle is what is decoded. -/
theorem decode_of_scan (h : decoder.scan? address source.ahead = some scan) :
    ∃ rest, decoder.decode address source = (scan.reading, rest) ∧
      source.Yields scan.taken rest := by
  rcases decode_opcode decoder address source with ⟨opcode, after, hyields, hscan, -, hdecode⟩ |
    ⟨hnone, -⟩
  · rw [hscan] at h
    obtain ⟨operands, rest, htaken, hfrom, hrest⟩ := decodeFrom_of_scan h
    rw [hdecode, htaken]
    exact ⟨rest, hfrom, hyields.trans hrest⟩
  · rw [hnone] at h
    cases h

/-- Where the bytes ahead settle nothing, decoding runs out of them: inside an instruction, unless
    there were none at all. -/
theorem decode_of_none (h : decoder.scan? address source.ahead = none) :
    source.RunsOut (if source.ahead = [] then .endOfData else .truncated none)
      (decoder.decode address source) := by
  rcases decode_opcode decoder address source with ⟨opcode, after, hyields, hscan, hne, hdecode⟩ |
    ⟨-, hout⟩
  · have hbegun : source.ahead ≠ [] := by
      rw [hyields.ahead]
      exact List.append_ne_nil_of_left_ne_nil hne _
    rw [hscan] at h
    rw [if_neg hbegun, hdecode]
    exact hyields.runsOut (decodeFrom_of_none h)
  · exact hout

end Decoder

/-! ## 2. Data -/

namespace Region

variable {region : Region} {address : Address} {bytes : List UInt8} {scan : Scan} {source : Source}

/-- What some bytes settle where a unit of the region is to be read. -/
def scan? (region : Region) (address : Address) (bytes : List UInt8) : Option Scan :=
  let taken := bytes.take (region.unitLength address)
  if region.unitLength address ≤ bytes.length then
    some { reading := .line (region.kind.line address taken), taken }
  else none

theorem scan?_spec (h : region.scan? address bytes = some scan) :
    scan.taken ≠ [] ∧ scan.taken <+: bytes ∧ scan.reading.Settled address scan.taken ∧
      ∀ more, region.scan? address (scan.taken ++ more) = some scan := by
  simp only [scan?] at h ⊢
  split at h
  · rename_i hle
    cases h
    have hlen : (bytes.take (region.unitLength address)).length = region.unitLength address := by
      rw [List.length_take]
      omega
    refine ⟨?_, List.take_prefix _ _, ⟨rfl, rfl⟩, fun more => ?_⟩
    · have hpos := region.unitLength_pos address
      rw [← hlen] at hpos
      exact List.ne_nil_of_length_pos hpos
    · rw [if_pos (by rw [List.length_append, hlen]; omega), List.take_left' hlen]
  · cases h

theorem readUnit_of_scan (h : region.scan? address source.ahead = some scan) :
    ∃ rest, region.readUnit address source = (scan.reading, rest) ∧
      source.Yields scan.taken rest := by
  simp only [scan?] at h
  split at h
  · rename_i hle
    cases h
    obtain ⟨rest, htake, hyields⟩ := Source.take_of_le hle
    exact ⟨rest, by simp only [readUnit, htake], hyields⟩
  · cases h

/-- Bytes that settle nothing are too few for a unit. -/
theorem length_lt_of_scan?_none (h : region.scan? address bytes = none) :
    bytes.length < region.unitLength address := by
  simp only [scan?] at h
  split at h
  · cases h
  · rename_i hlt
    exact Nat.lt_of_not_le hlt

theorem readUnit_of_none (h : region.scan? address source.ahead = none) :
    source.RunsOut (.truncated (region.cutLine address source.ahead))
      (region.readUnit address source) := by
  have hlt := length_lt_of_scan?_none h
  constructor
  · intro hfault
    simp only [readUnit, Source.take_of_end hlt hfault]
  · intro detail hfault
    obtain ⟨rest, htake⟩ := Source.take_of_fault hlt hfault
    simp only [readUnit, htake]

end Region

/-! ## 3. Units -/

namespace Disassembler

variable {d : Disassembler} {cursor : Address} {bytes : List UInt8} {scan : Scan} {source : Source}

/-- What some bytes settle where a unit is to be read. -/
def scan? (d : Disassembler) (cursor : Address) (bytes : List UInt8) : Option Scan :=
  match d.regions.at? cursor with
  | some region => region.scan? cursor bytes
  | none => d.toDecoder.scan? cursor bytes

/-- What is read where the data ends behind bytes that settle nothing. -/
def shortfall (d : Disassembler) (cursor : Address) (bytes : List UInt8) : Reading :=
  match d.regions.at? cursor with
  | some region => .truncated (region.cutLine cursor bytes)
  | none => if bytes = [] then .endOfData else .truncated none

theorem shortfall_cases (d : Disassembler) (cursor : Address) (bytes : List UInt8) :
    d.shortfall cursor bytes = .endOfData ∨ ∃ part, d.shortfall cursor bytes = .truncated part := by
  unfold shortfall
  split
  · exact Or.inr ⟨_, rfl⟩
  · split
    · exact Or.inl rfl
    · exact Or.inr ⟨none, rfl⟩

theorem scan?_spec (h : d.scan? cursor bytes = some scan) :
    scan.taken ≠ [] ∧ scan.taken <+: bytes ∧ scan.reading.Settled cursor scan.taken ∧
      ∀ more, d.scan? cursor (scan.taken ++ more) = some scan := by
  unfold scan? at h ⊢
  split at h
  · exact Region.scan?_spec h
  · exact Decoder.scan?_spec h

/-- **No byte behind the ones taken is looked at.** -/
theorem scan?_local (h : d.scan? cursor bytes = some scan) (more : List UInt8) :
    d.scan? cursor (scan.taken ++ more) = some scan :=
  (scan?_spec h).2.2.2 more

/-- What some bytes settle is settled whatever comes behind them. -/
theorem scan?_append (h : d.scan? cursor bytes = some scan) (more : List UInt8) :
    d.scan? cursor (bytes ++ more) = some scan := by
  obtain ⟨-, ⟨rest, hrest⟩, -⟩ := scan?_spec h
  rw [← hrest, List.append_assoc]
  exact scan?_local h (rest ++ more)

/-- **A unit has the bytes it took, and those only**, and it stands at the cursor. -/
theorem scan?_line {line : Line} {taken : List UInt8}
    (h : d.scan? cursor bytes = some { reading := .line line, taken }) :
    line.address = cursor ∧ line.bytes = taken ∧ line.bytes ≠ [] ∧ line.bytes <+: bytes := by
  obtain ⟨hne, hinitial, ⟨haddress, hbytes⟩, -⟩ := scan?_spec h
  rw [hbytes]
  exact ⟨haddress, rfl, hne, hinitial⟩

/-- Bytes settle a unit or that an opcode has an unknown mode. -/
theorem scan?_cases (h : d.scan? cursor bytes = some scan) :
    (∃ line, scan.reading = .line line ∧ scan.taken = line.bytes) ∨
      ∃ mode opcode, scan.reading = .failed (.unknownMode mode opcode) := by
  obtain ⟨-, -, hsettled, -⟩ := scan?_spec h
  cases hr : scan.reading with
  | line line =>
    rw [hr] at hsettled
    exact Or.inl ⟨line, rfl, hsettled.2.symm⟩
  | endOfData =>
    rw [hr] at hsettled
    cases hsettled
  | truncated part =>
    rw [hr] at hsettled
    cases hsettled
  | failed fault =>
    rw [hr] at hsettled
    cases fault with
    | unknownMode mode opcode => exact Or.inr ⟨mode, opcode, rfl⟩
    | io detail => cases hsettled

/-- **What the bytes ahead settle is what is read.** -/
theorem readAt_of_scan (h : d.scan? cursor source.ahead = some scan) :
    ∃ rest, d.readAt cursor source = (scan.reading, rest) ∧ source.Yields scan.taken rest := by
  unfold scan? at h
  unfold readAt
  cases hr : d.regions.at? cursor with
  | some region =>
    rw [hr] at h
    exact Region.readUnit_of_scan h
  | none =>
    rw [hr] at h
    exact Decoder.decode_of_scan h

/-- **Where the bytes ahead settle nothing, what stands behind them decides.** -/
theorem readAt_of_none (h : d.scan? cursor source.ahead = none) :
    source.RunsOut (d.shortfall cursor source.ahead) (d.readAt cursor source) := by
  unfold scan? at h
  unfold readAt shortfall
  cases hr : d.regions.at? cursor with
  | some region =>
    rw [hr] at h
    exact Region.readUnit_of_none h
  | none =>
    rw [hr] at h
    exact Decoder.decode_of_none h

end Disassembler

end Disassembly
